import CodeAudit.Pattern.Written
import CodeAudit.Proofs.Pattern.Language

namespace CodeAudit.Pattern

variable {w s : Text} {c : Char} {a : Nat}

namespace Written

theorem isWord_of_special : ['\\', '|', ')', '(', '[', '?', '*', '+', '{', '.', '^', '$'].all
    (!Text.isWord ·) = true := by decide

theorem ne_of_isWord {d : Char} (hc : Text.isWord c = true)
    (hd : d ∈ ['\\', '|', ')', '(', '[', '?', '*', '+', '{', '.', '^', '$']) : c ≠ d := by
  rintro rfl
  have h := List.all_eq_true.mp isWord_of_special c hd
  rw [hc] at h
  cases h

theorem bind_ok {α β : Type} {x : ReadM α} {f : α → ReadM β} {r r' : Reader} {b : α}
    (h : x r = .ok (b, r')) : (x >>= f) r = f b r' := by
  have hbind : (x >>= f) r = (x r).bind fun z => f z.1 z.2 := rfl
  rw [hbind, h]
  rfl

theorem get_eq (r : Reader) : (get : ReadM Reader) r = .ok (r, r) := rfl

theorem units_of_isWord (hw : ∀ c ∈ w, Text.isWord c = true) : units w = w.map ([·]) := by
  induction w with
  | nil => rfl
  | cons c w ih =>
    have hc : c ≠ '\\' := ne_of_isWord (hw c List.mem_cons_self) (by simp)
    rw [units]
    · rw [ih fun d hd => hw d (List.mem_cons_of_mem _ hd)]
      rfl
    · intro d rest h
      simp_all

def literal (c : Char) : Item := { pattern := .one (.range c.toNat c.toNat) }

theorem unitItems_of_isWord (hc : Text.isWord c = true) (start : Nat) (told : List Item)
    (r : Reader) : unitItems {} start [c] told r = .ok (literal c :: told, r) := by
  have hne : ∀ d ∈ ['[', '?', '*', '+', '{', '.', '^', '$'], c ≠ d :=
    fun d hd => ne_of_isWord hc (List.mem_append_right ['\\', '|', ')', '('] hd)
  simp only [List.forall_mem_cons] at hne
  obtain ⟨h1, h2, h3, h4, h5, h6, h7, h8, -⟩ := hne
  rw [unitItems, bind_ok (get_eq r)]
  dsimp only
  rw [Bool.false_and, if_neg Bool.false_ne_true, Bool.false_and, if_neg Bool.false_ne_true]
  split
  case h_9 => rfl
  all_goals contradiction

theorem head?_ne_of_isWord (hw : ∀ c ∈ w, Text.isWord c = true) :
    (w.map ([·])).head? ≠ some ['\\'] := by
  intro h
  obtain ⟨d, hd, hlone⟩ := Option.map_eq_some_iff.mp (List.head?_map.symm.trans h)
  exact ne_of_isWord (hw d (List.mem_of_mem_head? hd)) (by simp) (List.singleton_inj.mp hlone)

theorem peek_eq (r : Reader) : peek r = .ok (r.ahead.head?, r) := rfl

theorem take_eq {r : Reader} {u : List Char} {us : List (List Char)} (hr : r.ahead = u :: us)
    (hus : us.head? ≠ some ['\\']) :
    take r = .ok (some u, { r with ahead := us, pos := r.pos + u.length }) := by
  have hlook : look { r with ahead := us, pos := r.pos + u.length } =
      .ok ((), { r with ahead := us, pos := r.pos + u.length }) := by
    rw [look, bind_ok (get_eq _), if_neg (by simpa using hus)]
    rfl
  rw [take, bind_ok (get_eq r), hr]
  have hmodify : (modify fun r : Reader => { r with ahead := us, pos := r.pos + u.length } :
      ReadM Unit) r = .ok ((), { r with ahead := us, pos := r.pos + u.length }) := rfl
  dsimp only
  rw [bind_ok hmodify, bind_ok hlook]
  rfl

theorem items_of_isWord (hw : ∀ c ∈ w, Text.isWord c = true) (leading : Bool) (fuel : Nat)
    (hfuel : w.length < fuel) (told : List Item) (r : Reader) (hr : r.ahead = w.map ([·])) :
    items leading {} fuel told r =
      .ok (sequenceOf ((w.map literal).reverse ++ told),
        { r with ahead := [], pos := r.pos + w.length }) := by
  induction w generalizing fuel told r with
  | nil => 
    obtain ⟨fuel, rfl⟩ : ∃ n, fuel = n + 1 := ⟨fuel - 1, by simp at hfuel; omega⟩
    rw [items, bind_ok (get_eq r), bind_ok (peek_eq r), hr]
    cases r
    cases hr
    rfl
  | cons c w ih => 
    have hc := hw c List.mem_cons_self
    obtain ⟨fuel, rfl⟩ : ∃ n, fuel = n + 1 := ⟨fuel - 1, by simp at hfuel; omega⟩
    rw [List.length_cons] at hfuel
    have hmark : ([c] == ['|'] || [c] == [')']) = false := by
      simp [ne_of_isWord hc (d := '|') (by simp), ne_of_isWord hc (d := ')') (by simp)]
    have hparen : ([c] == ['(']) = false := by
      simp [ne_of_isWord hc (d := '(') (by simp)]
    have hpeek : peek r = .ok (some [c], r) := by rw [peek_eq, hr]; rfl
    rw [items, bind_ok (get_eq r), bind_ok hpeek]
    simp only [hmark, hparen, Bool.false_eq_true, if_false]
    have hrest : ∀ d ∈ w, Text.isWord d = true := fun d hd => hw d (List.mem_cons_of_mem _ hd)
    rw [bind_ok (take_eq hr (head?_ne_of_isWord hrest)), bind_ok (unitItems_of_isWord hc _ _ _),
      ih hrest fuel (by omega) _ _ rfl]
    simp only [List.map_cons, List.reverse_cons, List.append_assoc, List.singleton_append,
      List.length_cons, List.length_nil]
    congr 3
    omega

theorem alternatives_of_isWord (hw : ∀ c ∈ w, Text.isWord c = true) {size : Nat}
    (hsize : w.length + 1 < size) :
    alternatives true {} true size { ahead := w.map ([·]) } =
      .ok (sequenceOf (w.map literal).reverse, { ahead := [], pos := w.length }) := by
  obtain ⟨n, rfl⟩ : ∃ n, size = n + 1 := ⟨size - 1, by omega⟩
  have hitems := items_of_isWord hw true n (by omega) [] { ahead := w.map ([·]) } rfl
  rw [List.append_nil, Nat.zero_add] at hitems
  have haccept : accept '|' { ahead := [], pos := w.length } =
      .ok (false, { ahead := [], pos := w.length }) := rfl
  rw [alternatives, Bool.true_and, bind_ok hitems, bind_ok haccept]
  rfl

end Written

open Written

theorem read_of_isWord (hw : ∀ c ∈ w, Text.isWord c = true) :
    read w = .ok (sequenceOf (w.map literal).reverse) := by
  have hlook : Written.look { ahead := w.map ([·]) } = .ok ((), { ahead := w.map ([·]) }) := by
    rw [Written.look, bind_ok (get_eq _), if_neg]
    · rfl
    · intro h
      exact head?_ne_of_isWord hw (eq_of_beq h)
  have hwhole : whole (8 * w.length + 8) { ahead := w.map ([·]) } =
      .ok (sequenceOf (w.map literal).reverse, { ahead := [], pos := w.length }) := by
    rw [whole, bind_ok hlook, bind_ok (alternatives_of_isWord hw (by omega))]
    rfl
  rw [read, units_of_isWord hw, StateT.run'_eq, StateT.run, hwhole]
  rfl

theorem sequenceOf_concat (is : List Item) (hne : is ≠ []) (i : Item) :
    sequenceOf (is ++ [i]) = i.pattern ++ sequenceOf is := by
  cases is with
  | nil => exact absurd rfl hne
  | cons j js =>
    simp only [sequenceOf, List.cons_append, List.map_cons, List.map_append, List.map_nil,
      List.foldl_append, List.foldl_cons, List.foldl_nil]
    rfl

theorem literal_reads {v : Text} : (literal c).pattern.Reads v ↔ v = [c] := by
  have hclass : ∀ d, (CharClass.range c.toNat c.toNat).has d = true ↔ d = c := by
    intro d
    simp only [CharClass.has, Bool.and_eq_true, decide_eq_true_eq]
    rw [← Char.toNat_inj]
    omega
  change (∃ d, v = [d] ∧ (CharClass.range c.toNat c.toNat).has d = true) ↔ _
  simp [hclass]

theorem sequenceOf_reads {v : Text} : (sequenceOf (w.map literal).reverse).Reads v ↔ v = w := by
  induction w generalizing v with
  | nil => rfl
  | cons c w ih =>
    rw [List.map_cons, List.reverse_cons]
    cases w with
    | nil => exact literal_reads
    | cons d w => 
      rw [sequenceOf_concat _ (by simp)]
      change (∃ u t, v = u ++ t ∧ (literal c).pattern.Reads u ∧ Reads _ t) ↔ _
      simp only [literal_reads, ih]
      simp

theorem sequenceOf_isPlain : (sequenceOf (w.map literal).reverse).isPlain = true := by
  induction w with
  | nil => rfl
  | cons c w ih =>
    rw [List.map_cons, List.reverse_cons]
    cases w with
    | nil => rfl
    | cons d w => 
      rw [sequenceOf_concat _ (by simp)]
      change ((literal c).pattern.isPlain && isPlain _) = true
      rw [ih]
      rfl

theorem exists_read_of_isWord (hw : ∀ c ∈ w, Text.isWord c = true) :
    ∃ p, read w = .ok p ∧ ∀ (s : Text) (a : Nat), a ≤ s.length →
      ((p.matchAt s a).isSome = true ↔ w <+: s.drop a) := by
  refine ⟨_, read_of_isWord hw, ?_⟩
  intro s a ha
  constructor
  · intro h
    obtain ⟨m, hm⟩ := Option.isSome_iff_exists.mp h
    obtain ⟨u, v, hs, -, -, hr⟩ := reads_of_matchAt sequenceOf_isPlain ha hm
    rw [sequenceOf_reads.mp hr] at hs
    exact ⟨v, hs.symm⟩
  · rintro ⟨v, hs⟩
    obtain ⟨m, hm, -⟩ := exists_matchAt ha (sequenceOf_reads.mpr rfl) hs.symm
    rw [hm]
    rfl

end CodeAudit.Pattern
