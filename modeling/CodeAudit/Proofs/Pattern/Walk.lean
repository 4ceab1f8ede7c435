import CodeAudit.Proofs.Pattern.Language

namespace CodeAudit.Pattern

variable {p q : Pattern} {s u v w : Text} {x y : Place} {k : Place → Option Place} {c : CharClass}
  {least a : Nat} {m : Match}

theorem walk_cat : (p ++ q).walk s x k = p.walk s x fun y => q.walk s y k := rfl

theorem walk_group {name : String} : (group name p).walk s x k =
    p.walk s x fun y => k { y with groups := (name, x.pos, y.pos) :: y.groups } := rfl

theorem walk_lit {cs : List Char} (hx : x.rest = cs ++ v) :
    (lit cs).walk s x k = k ⟨x.pos + cs.length, v, x.groups⟩ := by
  have hpre : cs.isPrefixOf (cs ++ v) = true :=
    List.isPrefixOf_iff_prefix.mpr (List.prefix_append cs v)
  simp only [walk, hx, hpre, if_true, List.drop_left]

theorem walk_lit_none {cs : List Char} (hx : ¬cs <+: x.rest) : (lit cs).walk s x k = none := by
  have hpre : ¬cs.isPrefixOf x.rest = true := by rwa [List.isPrefixOf_iff_prefix]
  simp only [walk, hpre]
  rfl

theorem takeMost_eq_some {k : Nat → Text → Option Place} {pos : Nat}
    (hw : ∀ b ∈ w, c.has b = true) (hl : least ≤ w.length) (hk : k (pos + w.length) v = some y)
    (hlong : ∀ t r, v = t ++ r → t ≠ [] → (∀ b ∈ t, c.has b = true) →
      k (pos + w.length + t.length) r = none) :
    takeMost c k least none pos (w ++ v) = some y := by
  induction w generalizing least pos with
  | nil =>
    obtain rfl : least = 0 := Nat.le_zero.mp hl
    cases v with
    | nil => exact hk
    | cons b v =>
      rw [List.nil_append, takeMost]
      split
      · rename_i hb
        -- a longer run leads to nothing, and the search comes back to this one
        have hfurther : takeMost c k (0 - 1) (Option.map (· - 1) none) (pos + 1) v = none := by
          rw [takeMost_eq_findSome?, List.findSome?_eq_none_iff]
          intro z hz
          obtain ⟨t, r, rfl, ht, -, -, rfl⟩ := (mem_runEnds ..).mp (List.mem_reverse.mp hz)
          have h := hlong (b :: t) r rfl (by simp) (by simpa [hb.2] using ht)
          have hpos : pos + ([] : Text).length + (b :: t).length = pos + 1 + t.length := by
            rw [List.length_nil, List.length_cons]
            omega
          rwa [hpos] at h
        rw [hfurther]
        exact hk
      · exact hk
  | cons b w ih =>
    have hpos : pos + 1 + w.length = pos + (b :: w).length := by rw [List.length_cons]; omega
    have hrest : takeMost c k (least - 1) (Option.map (· - 1) none) (pos + 1) (w ++ v) = some y := by
      apply ih (fun d hd => hw d (List.mem_cons_of_mem _ hd))
      · rw [List.length_cons] at hl
        omega
      · rwa [hpos]
      · rwa [hpos]
    rw [List.cons_append, takeMost, if_pos ⟨by simp, hw b List.mem_cons_self⟩, hrest]

theorem walk_greedy (hx : x.rest = w ++ v) (hw : ∀ b ∈ w, c.has b = true) (hl : least ≤ w.length)
    (hk : k ⟨x.pos + w.length, v, x.groups⟩ = some y)
    (hlong : ∀ t r, v = t ++ r → t ≠ [] → (∀ b ∈ t, c.has b = true) →
      k ⟨x.pos + w.length + t.length, r, x.groups⟩ = none) :
    (run c least none true).walk s x k = some y := by
  simp only [walk, if_true, hx]
  exact takeMost_eq_some hw hl hk hlong

theorem walk_whole_run (hx : x.rest = w ++ v) (hw : ∀ b ∈ w, c.has b = true)
    (hl : least ≤ w.length) (hv : ∀ b ∈ v.head?, c.has b = false)
    (hk : k ⟨x.pos + w.length, v, x.groups⟩ = some y) :
    (run c least none true).walk s x k = some y := by
  apply walk_greedy hx hw hl hk
  intro t r ht hne hin
  obtain ⟨b, t, rfl⟩ := List.exists_cons_of_ne_nil hne
  have hb := hv b (by simp [ht])
  rw [hin b List.mem_cons_self] at hb
  cases hb

theorem takeLeast_eq_some {k : Nat → Text → Option Place} {pos : Nat}
    (hw : ∀ b ∈ w, c.has b = true) (hl : least ≤ w.length) (hk : k (pos + w.length) v = some y)
    (hshort : ∀ u t, w = u ++ t → t ≠ [] → least ≤ u.length →
      k (pos + u.length) (t ++ v) = none) :
    takeLeast c k least none pos (w ++ v) = some y := by
  induction w generalizing least pos with
  | nil =>
    obtain rfl : least = 0 := Nat.le_zero.mp hl
    have hk' : k pos v = some y := hk
    cases v with
    | nil => exact hk
    | cons b v =>
      rw [List.nil_append, takeLeast, if_pos rfl, hk']
  | cons b w ih =>
    have hpos : ∀ n, pos + 1 + n = pos + (n + 1) := fun n => by omega
    have hrest : takeLeast c k (least - 1) (Option.map (· - 1) none) (pos + 1) (w ++ v) = some y := by
      apply ih (fun d hd => hw d (List.mem_cons_of_mem _ hd))
      · rw [List.length_cons] at hl
        omega
      · rwa [hpos]
      · intro u t ht hne hlu
        rw [hpos]
        apply hshort (b :: u) t (by rw [ht, List.cons_append]) hne
        rw [List.length_cons]
        omega
    have hfirst : (if least = 0 then k pos (b :: (w ++ v)) else none) = none := by
      split
      · rename_i hzero
        exact hshort [] (b :: w) rfl (by simp) (by simp [hzero])
      · rfl
    rw [List.cons_append, takeLeast, hfirst]
    simpa only [hw b List.mem_cons_self, ne_eq, reduceCtorEq, not_false_eq_true, and_self, if_true]
      using hrest

theorem walk_lazy (hx : x.rest = w ++ v) (hw : ∀ b ∈ w, c.has b = true) (hl : least ≤ w.length)
    (hk : k ⟨x.pos + w.length, v, x.groups⟩ = some y)
    (hshort : ∀ u t, w = u ++ t → t ≠ [] → least ≤ u.length →
      k ⟨x.pos + u.length, t ++ v, x.groups⟩ = none) :
    (run c least none false).walk s x k = some y := by
  simp only [walk, Bool.false_eq_true, if_false, hx]
  exact takeLeast_eq_some hw hl hk hshort

theorem walk_until {d : Char} (hx : x.rest = w ++ d :: v) (hw : ∀ b ∈ w, c.has b = true)
    (hd : d ∉ w) (hl : least ≤ w.length) (hk : k ⟨x.pos + w.length + 1, v, x.groups⟩ = some y) :
    (run c least none false).walk s x (fun z => (lit [d]).walk s z k) = some y := by
  apply walk_lazy hx hw hl
  · rw [walk_lit (v := v) rfl]
    exact hk
  · intro u t ht hne _
    apply walk_lit_none
    obtain ⟨b, t, rfl⟩ := List.exists_cons_of_ne_nil hne
    rintro ⟨r, hr⟩
    obtain ⟨rfl, -⟩ := List.cons.inj hr
    exact hd (by simp [ht])

theorem walk_alt_left (h : p.walk s x k = some y) : (alt p q).walk s x k = some y := by
  simp only [walk, h]

theorem walk_alt_right (hp : p.walk s x k = none) (hq : q.walk s x k = some y) :
    (alt p q).walk s x k = some y := by
  simp only [walk, hp, hq]

theorem matchAt_of_walk (ha : a ≤ s.length) (h : p.walk s (placeAt s a) some = some y) :
    p.matchAt s a = some ⟨a, y.pos, y.groups⟩ := by
  rw [matchAt_natCast ha, matchHere]
  exact congrArg (Option.map _) h

theorem matchHere_of_searchHere (ha : a ≤ s.length) {found : Option Match}
    (h : p.searchHere s a (s.drop a) = found) :
    ∀ b, a ≤ b → b ≤ s.length → (∀ m ∈ found, b < m.start) →
      p.matchHere s b (s.drop b) = none := by
  intro b hab hb hbefore
  generalize hrest : s.drop a = rest at h
  induction rest generalizing a with
  | nil =>
    have hlen := congrArg List.length hrest
    rw [List.length_drop, List.length_nil] at hlen
    obtain rfl : a = b := by omega
    rw [searchHere, ← hrest] at h
    cases found with
    | none => exact h
    | some m =>
      have hlt := hbefore m rfl
      have hstart := (matchHere_eq_some ha h).1
      omega
  | cons d rest ih =>
    have hlen := congrArg List.length hrest
    rw [List.length_drop, List.length_cons] at hlen
    have hnext : s.drop (a + 1) = rest := by
      rw [← List.drop_drop, hrest, List.drop_succ_cons, List.drop_zero]
    rw [searchHere] at h
    split at h
    · rename_i m hm
      subst h
      have hlt := hbefore m rfl
      rw [← hrest] at hm
      have hstart := (matchHere_eq_some ha hm).1
      omega
    · rename_i hnone
      rcases Nat.eq_or_lt_of_le hab with rfl | hlt
      · rw [hrest]
        exact hnone
      · exact ih (by omega) hlt hnext h

theorem search_eq_none (h : p.search s 0 = none) :
    ∀ b ≤ s.length, p.matchAt s b = none := by
  intro b hb
  have hseek : s.seek 0 = (0, s.drop 0) := Text.seek_natCast (Nat.zero_le _)
  rw [search, hseek] at h
  rw [matchAt_natCast hb]
  exact matchHere_of_searchHere (Nat.zero_le _) h b (Nat.zero_le _) hb (by simp)

theorem search_first (h : p.search s 0 = some m) :
    p.matchAt s m.start = some m ∧ m.start ≤ s.length ∧
      ∀ b < m.start, p.matchAt s b = none := by
  have hseek : s.seek 0 = (0, s.drop 0) := Text.seek_natCast (Nat.zero_le _)
  rw [search, hseek] at h
  obtain ⟨-, hle, hm⟩ := searchHere_eq_some (Nat.zero_le _) h
  refine ⟨by rw [matchAt_natCast hle, hm], hle, ?_⟩
  intro b hb
  rw [matchAt_natCast (by omega)]
  exact matchHere_of_searchHere (Nat.zero_le _) h b (Nat.zero_le _) (by omega)
    (by simpa using hb)

end CodeAudit.Pattern
