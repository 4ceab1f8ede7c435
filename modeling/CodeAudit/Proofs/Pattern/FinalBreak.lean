import CodeAudit.Proofs.Pattern.Lead
import CodeAudit.Proofs.Text.FinalBreak

namespace CodeAudit

def Place.extend (d : Char) (x : Place) : Place := { x with rest := x.rest ++ [d] }

namespace Pattern

variable {p q : Pattern} {d : Char} {s s' w : Text} {m : Match} {i : Int}

def mayEndWith (d : Char) : Pattern → Bool
  | lit cs => cs.getLast? == some d
  | one c | run c _ _ _ => c.has d
  | cat p q => q.mayEndWith d || q.staysIn (.among []) && p.mayEndWith d
  | alt p q => p.mayEndWith d || q.mayEndWith d
  | group _ p => p.mayEndWith d
  | _ => true

theorem mayEndWith_cat_lit (p : Pattern) (d e : Char) :
    (p ++ lit [d]).mayEndWith e = (d == e) := by
  change (some d == some e || false && p.mayEndWith e) = (d == e)
  simp

theorem mayEndWith_of_reads (h : p.Reads (w ++ [d])) : p.mayEndWith d = true := by
  induction p generalizing w with
  | lit cs =>
    obtain rfl : w ++ [d] = cs := h
    simp [mayEndWith]
  | one c =>
    obtain ⟨a, he, ha⟩ := h
    cases w with
    | nil =>
      obtain ⟨rfl, -⟩ := List.cons.inj he
      exact ha
    | cons b w => simp at he
  | run c least most greedy =>
    cases most with
    | some n => exact h.elim
    | none => exact h.1 d (by simp)
  | cat p q ihp ihq =>
    obtain ⟨u, v, he, hu, hv⟩ := h
    simp only [mayEndWith, Bool.or_eq_true, Bool.and_eq_true]
    rcases List.eq_nil_or_concat v with rfl | ⟨v, e, rfl⟩
    · rw [List.append_nil] at he
      rw [← he] at hu
      exact .inr ⟨staysIn_of_reads hv (by simp), ihp hu⟩
    · rw [List.concat_eq_append] at he hv
      rw [← List.append_assoc] at he
      obtain ⟨-, hd⟩ := List.append_inj' he rfl
      obtain ⟨rfl, -⟩ := List.cons.inj hd
      exact .inl (ihq hv)
  | alt p q ihp ihq =>
    simp only [mayEndWith, Bool.or_eq_true]
    exact h.imp ihp ihq
  | group name p ih => exact ih h
  | rep | again | edge | look | atomic | ifGroup => exact h.elim

theorem runEnds_extend (c : CharClass) (d : Char) (least pos : Nat) (xs : Text) :
    (runEnds c least none pos (xs ++ [d])).filter (fun y => !y.2.isEmpty) =
      (runEnds c least none pos xs).map fun y => (y.1, y.2 ++ [d]) := by
  induction xs generalizing least pos with
  | nil =>
    have hlast : (if none ≠ some 0 ∧ c.has d = true then
        runEnds c (least - 1) none (pos + 1) [] else []).filter (fun y => !y.2.isEmpty) = [] := by
      rw [List.filter_eq_nil_iff]
      intro y hy
      split at hy
      · obtain ⟨w, rest, hw, -, -, -, rfl⟩ := (mem_runEnds ..).mp hy
        obtain ⟨-, rfl⟩ := List.append_eq_nil_iff.mp hw.symm
        simp
      · cases hy
    rw [List.nil_append, runEnds.eq_2, List.filter_append, Option.map_none, hlast,
      List.append_nil, runEnds]
    split <;> rfl
  | cons x xs ih =>
    simp only [List.cons_append, runEnds, Option.map_none, List.filter_append, List.map_append]
    congr 1
    · split <;> rfl
    · split
      · exact ih _ _
      · rfl

theorem flatMap_filter {α β : Type} {P : α → Bool} {f : α → List β} (l : List α)
    (h : ∀ a, P a = false → f a = []) : (l.filter P).flatMap f = l.flatMap f := by
  induction l with
  | nil => rfl
  | cons a l ih =>
    cases ha : P a with
    | true => rw [List.filter_cons_of_pos ha, List.flatMap_cons, List.flatMap_cons, ih]
    | false =>
      rw [List.filter_cons_of_neg (ne_true_of_eq_false ha), List.flatMap_cons, h a ha, ih]
      rfl

theorem ends_of_rest_nil {x y : Place} (hx : x.rest = []) (hy : y ∈ p.ends s x) : y.rest = [] := by
  obtain ⟨w, hw, -⟩ := ends_onward hy
  rw [hx] at hw
  exact (List.append_eq_nil_iff.mp hw.symm).2

theorem ends_lit_extend (cs : List Char) (d : Char) (s s' : Text) (x : Place) :
    ((lit cs).ends s' (x.extend d)).filter (fun y => !y.rest.isEmpty) =
      ((lit cs).ends s x).map (Place.extend d) := by
  change (if cs.isPrefixOf (x.rest ++ [d]) then
    [(⟨x.pos + cs.length, (x.rest ++ [d]).drop cs.length, x.groups⟩ : Place)]
    else []).filter _ = ((if cs.isPrefixOf x.rest then
      [(⟨x.pos + cs.length, x.rest.drop cs.length, x.groups⟩ : Place)] else []).map _)
  simp only [List.isPrefixOf_iff_prefix, List.prefix_concat_iff]
  by_cases h : cs <+: x.rest
  · rw [if_pos (.inr h), if_pos h, List.drop_append_of_le_length h.length_le]
    simp [Place.extend]
  · rw [if_neg h]
    split
    · rename_i hlast
      rw [hlast.resolve_right h, List.drop_length]
      rfl
    · rfl

theorem ends_one_extend (c : CharClass) (d : Char) (s s' : Text) (x : Place) :
    ((one c).ends s' (x.extend d)).filter (fun y => !y.rest.isEmpty) =
      ((one c).ends s x).map (Place.extend d) := by
  obtain ⟨pos, rest, groups⟩ := x
  cases rest with
  | nil =>
    change (if c.has d then [(⟨pos + 1, [], groups⟩ : Place)] else []).filter _ = []
    split <;> rfl
  | cons a rest =>
    change (if c.has a then [(⟨pos + 1, rest ++ [d], groups⟩ : Place)] else []).filter _ =
      (if c.has a then [(⟨pos + 1, rest, groups⟩ : Place)] else []).map _
    split
    · simp [Place.extend]
    · rfl

theorem ends_run_extend (c : CharClass) (least : Nat) (greedy : Bool) (d : Char) (s s' : Text)
    (x : Place) :
    ((run c least none greedy).ends s' (x.extend d)).filter (fun y => !y.rest.isEmpty) =
      ((run c least none greedy).ends s x).map (Place.extend d) := by
  have hplaces : ((runEnds c least none x.pos (x.rest ++ [d])).map fun y =>
      (⟨y.1, y.2, x.groups⟩ : Place)).filter (fun y => !y.rest.isEmpty) =
      ((runEnds c least none x.pos x.rest).map fun y =>
        (⟨y.1, y.2, x.groups⟩ : Place)).map (Place.extend d) := by
    rw [List.filter_map, List.map_map]
    exact (congrArg (List.map _) (runEnds_extend c d least x.pos x.rest)).trans (List.map_map ..)
  cases greedy with
  | false => exact hplaces
  | true =>
    change (List.reverse _).filter _ = (List.reverse _).map _
    rw [List.filter_reverse, List.map_reverse]
    exact congrArg List.reverse hplaces

theorem ends_extend (hp : p.isPlain = true) (d : Char) (s s' : Text) (x : Place) :
    (p.ends s' (x.extend d)).filter (fun y => !y.rest.isEmpty) =
      (p.ends s x).map (Place.extend d) := by
  induction p generalizing x with
  | lit cs => exact ends_lit_extend cs d s s' x
  | one c => exact ends_one_extend c d s s' x
  | run c least most greedy =>
    cases most with
    | some n => simp [isPlain] at hp
    | none => exact ends_run_extend c least greedy d s s' x
  | cat p q ihp ihq =>
    simp only [isPlain, Bool.and_eq_true] at hp
    change ((p.ends s' (x.extend d)).flatMap (q.ends s')).filter _ =
      ((p.ends s x).flatMap (q.ends s)).map _
    rw [List.filter_flatMap, List.map_flatMap, ← flatMap_filter, ihp hp.1, List.flatMap_map]
    · exact congrArg (List.flatMap · _) (funext fun y => ihq hp.2 y)
    · intro y hy
      rw [Bool.not_eq_false', List.isEmpty_iff] at hy
      rw [List.filter_eq_nil_iff]
      intro z hz
      rw [ends_of_rest_nil hy hz]
      decide
  | alt p q ihp ihq =>
    simp only [isPlain, Bool.and_eq_true] at hp
    change (p.ends s' (x.extend d) ++ q.ends s' (x.extend d)).filter _ =
      (p.ends s x ++ q.ends s x).map _
    rw [List.filter_append, List.map_append, ihp hp.1, ihq hp.2]
  | group name p ih =>
    change ((p.ends s' (x.extend d)).map _).filter _ = ((p.ends s x).map _).map _
    rw [List.filter_map, List.map_map]
    exact (congrArg (List.map _) (ih hp x)).trans (List.map_map ..)
  | rep | again | edge | look | atomic | ifGroup => simp [isPlain] at hp

def endsInLine (p : Pattern) : Bool :=
  p.isPlain && !p.mayEndWith '\n' && !p.staysIn (.among [])

theorem endsInLine_iff : p.endsInLine = true ↔
    p.isPlain = true ∧ p.mayEndWith '\n' = false ∧ p.staysIn (.among []) = false := by
  simp [endsInLine, and_assoc]

theorem ends_eq_nil (hp : p.isPlain = true) (hempty : p.staysIn (.among []) = false) {x : Place}
    (hx : x.rest = []) : p.ends s x = [] := by
  rw [List.eq_nil_iff_forall_not_mem]
  intro y hy
  obtain ⟨w, hw, -, hreads⟩ := reads_of_mem_ends hp hy
  rw [hx] at hw
  obtain ⟨rfl, -⟩ := List.append_eq_nil_iff.mp hw.symm
  rw [staysIn_of_reads hreads (by simp)] at hempty
  cases hempty

theorem matchHere_extend (hp : p.endsInLine = true) (pos : Nat) (rest : Text) :
    p.matchHere s' pos (rest ++ ['\n']) = p.matchHere s pos rest := by
  obtain ⟨hplain, hend, -⟩ := endsInLine_iff.mp hp
  have hall : (p.ends s' (Place.extend '\n' ⟨pos, rest, []⟩)).filter (fun y => !y.rest.isEmpty) =
      p.ends s' (Place.extend '\n' ⟨pos, rest, []⟩) := by
    rw [List.filter_eq_self]
    intro y hy
    obtain ⟨w, hw, -, hreads⟩ := reads_of_mem_ends hplain hy
    rw [Bool.not_eq_true', List.isEmpty_eq_false_iff]
    intro hnil
    rw [hnil, List.append_nil] at hw
    rw [← hw] at hreads
    rw [mayEndWith_of_reads hreads] at hend
    cases hend
  rw [ends_extend hplain '\n' s s'] at hall
  rw [matchHere_eq, matchHere_eq]
  change (p.ends s' (Place.extend '\n' ⟨pos, rest, []⟩)).head?.map _ = _
  rw [← hall, List.head?_map, Option.map_map]
  rfl

theorem matchAt_ended (hp : p.endsInLine = true) (s : Text) (i : Int) :
    p.matchAt s.ended i = p.matchAt s i := by
  obtain ⟨hplain, -, hempty⟩ := endsInLine_iff.mp hp
  rw [matchAt_eq_matchHere, matchAt_eq_matchHere, Text.length_ended]
  by_cases hn : i.toNat ≤ s.length
  · rw [Nat.min_eq_left hn, Nat.min_eq_left (by omega), Text.drop_ended hn]
    exact matchHere_extend hp _ _
  · rw [Nat.min_eq_right (by omega), Nat.min_eq_right (by omega), List.drop_length,
      List.drop_eq_nil_of_le (Nat.le_of_eq (Text.length_ended s)), matchHere_eq, matchHere_eq,
      ends_eq_nil hplain hempty rfl, ends_eq_nil hplain hempty rfl]
    rfl

theorem search_of_matchAt_none {q : Nat} (hq : q ≤ s.length)
    (h : ∀ a, q ≤ a → a ≤ s.length → p.matchAt s (a : Nat) = none) : p.search s q = none := by
  cases hm : p.search s q with
  | none => rfl
  | some m =>
    rw [search, Text.seek_natCast hq] at hm
    obtain ⟨hle, hlen, hmatch⟩ := searchHere_eq_some hq hm
    rw [← matchAt_natCast hlen, h m.start hle hlen] at hmatch
    cases hmatch

theorem start_lt_stop (hp : p.endsInLine = true) (hm : p.matchAt s i = some m) :
    m.start < m.stop := by
  obtain ⟨hplain, -, hempty⟩ := endsInLine_iff.mp hp
  obtain ⟨-, hle, -, hmem⟩ := matchAt_eq_some hm
  obtain ⟨w, -, hstop, hreads⟩ := reads_of_mem_ends hplain hmem
  have hw : 0 < w.length := by
    apply List.length_pos_iff.mpr
    rintro rfl
    rw [staysIn_of_reads hreads (by simp)] at hempty
    cases hempty
  have hpos : m.stop = m.start + w.length := hstop
  omega

theorem last_of_matchAt (hp : p.endsInLine = true) (hm : p.matchAt s i = some m) :
    ∃ d, s[m.stop - 1]? = some d ∧ p.mayEndWith d = true := by
  obtain ⟨hplain, -, -⟩ := endsInLine_iff.mp hp
  have hlt := start_lt_stop hp hm
  obtain ⟨-, -, -, hmem⟩ := matchAt_eq_some hm
  obtain ⟨w, hw, hstop, hreads⟩ := reads_of_mem_ends hplain hmem
  have hs : s.drop m.start = w ++ s.drop m.stop := hw
  have hpos : m.stop = m.start + w.length := hstop
  rcases List.eq_nil_or_concat w with rfl | ⟨v, d, rfl⟩
  · rw [List.length_nil] at hpos
    omega
  · rw [List.concat_eq_append] at hs hreads
    refine ⟨d, ?_, mayEndWith_of_reads hreads⟩
    have hget : (s.drop m.start)[v.length]? = some d := by
      rw [hs, List.append_assoc, List.getElem?_append_right (Nat.le_refl _), Nat.sub_self]
      rfl
    rw [List.getElem?_drop] at hget
    rw [← hget, hpos, List.length_concat]
    congr 1

theorem text_ended (hm : p.matchAt s i = some m) : m.text s.ended = m.text s := by
  obtain ⟨-, -, hle, -⟩ := matchAt_eq_some hm
  rw [Match.text, Match.text, Text.take_ended hle]

theorem groups_le {x y : Place} (hp : p.isPlain = true) (hy : y ∈ p.ends s x) :
    ∀ g ∈ y.groups, g ∈ x.groups ∨ g.2.2 ≤ y.pos := by
  induction p generalizing x y with
  | lit cs =>
    obtain ⟨rest, -, rfl⟩ := mem_ends_lit.mp hy
    exact fun g hg => .inl hg
  | one c =>
    obtain ⟨b, rest, -, -, rfl⟩ := mem_ends_one.mp hy
    exact fun g hg => .inl hg
  | run c least most greedy =>
    cases most with
    | some n => simp [isPlain] at hp
    | none =>
      obtain ⟨w, rest, -, -, -, rfl⟩ := mem_ends_run.mp hy
      exact fun g hg => .inl hg
  | cat p q ihp ihq =>
    simp only [isPlain, Bool.and_eq_true] at hp
    obtain ⟨z, hz, hy⟩ := mem_ends_cat.mp hy
    obtain ⟨w, -, hpos⟩ := ends_onward hy
    intro g hg
    rcases ihq hp.2 hy g hg with h | h
    · refine (ihp hp.1 hz g h).imp id ?_
      intro hle
      omega
    · exact .inr h
  | alt p q ihp ihq =>
    simp only [isPlain, Bool.and_eq_true] at hp
    exact (mem_ends_alt.mp hy).elim (ihp hp.1) (ihq hp.2)
  | group name p ih =>
    obtain ⟨z, hz, rfl⟩ := mem_ends_group.mp hy
    intro g hg
    rcases List.mem_cons.mp hg with rfl | hg
    · exact .inr (Nat.le_refl _)
    · exact ih hp hz g hg
  | rep | again | edge | look | atomic | ifGroup => simp [isPlain] at hp

theorem groupText?_ended (hp : p.isPlain = true) (hm : p.matchAt s i = some m) (name : String) :
    m.groupText? s.ended name = m.groupText? s name := by
  obtain ⟨-, -, hle, hmem⟩ := matchAt_eq_some hm
  rw [Match.groupText?, Match.groupText?]
  cases hg : m.group? name with
  | none => rfl
  | some g =>
    have hgroup : (name, g) ∈ m.groups := by
      obtain ⟨l, r, hl, -⟩ := List.lookup_eq_some_iff.mp hg
      rw [hl]
      exact List.mem_append_right _ List.mem_cons_self
    have hstop := (groups_le hp hmem _ hgroup).resolve_left List.not_mem_nil
    simp only [Option.map_some]
    rw [Text.take_ended (Nat.le_trans hstop hle)]

theorem head?_ends_many1_other {c : Char} {y : Place} (hy : s.drop y.pos = y.rest) :
    (((many1 (.other (.among [c]))).ends s y).head?.map fun z => s.find c z.pos) =
      if y.rest.head?.any (· != c) then some (s.find c y.pos) else none := by
  have hhas : ∀ b, (CharClass.other (.among [c])).has b = (b != c) := by
    intro b
    rw [Bool.eq_iff_iff]
    simp [CharClass.has]
  by_cases hhead : y.rest.head?.any (· != c) = true
  · obtain ⟨b, hb, hne⟩ := (Option.any_eq_true _ _).mp hhead
    have hsplit : y.rest = y.rest.takeWhile (· != c) ++ y.rest.dropWhile (· != c) :=
      List.takeWhile_append_dropWhile.symm
    have hout : ∀ d ∈ (y.rest.dropWhile (· != c)).head?,
        (CharClass.other (.among [c])).has d = false := by
      intro d hd
      have h := List.head?_dropWhile_not (· != c) y.rest
      rw [Option.mem_def.mp hd] at h
      rw [hhas]
      simpa using h
    have hall : ∀ d ∈ y.rest.takeWhile (· != c), (d != c) = true :=
      List.all_eq_true.mp List.all_takeWhile
    have hpos : 1 ≤ (y.rest.takeWhile (· != c)).length := by
      cases hrest : y.rest with
      | nil => simp [hrest] at hb
      | cons e rest =>
        obtain rfl : e = b := by simpa [hrest] using hb
        simp [hne]
    rw [many1, head?_ends_run (fun d hd => (hhas d).trans (hall d hd)) hout hpos hsplit, if_pos hhead]
    simp only [Option.map_some]
    refine congrArg some (Text.find_add_of_not_mem (hy.trans hsplit) ?_)
    intro hc
    simpa using hall c hc
  · rw [if_neg hhead]
    have hnil : (many1 (.other (.among [c]))).ends s y = [] := by
      rw [List.eq_nil_iff_forall_not_mem]
      intro z hz
      obtain ⟨w, rest, hw, hclass, hl, -⟩ := mem_ends_run.mp hz
      cases w with
      | nil => simp at hl
      | cons e w =>
        apply hhead
        rw [hw]
        exact (hhas e).symm.trans (hclass e List.mem_cons_self)
    rw [hnil]
    rfl

end Pattern

end CodeAudit
