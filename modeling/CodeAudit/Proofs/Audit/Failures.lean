import CodeAudit.Proofs.Audit.Isolation
import CodeAudit.Proofs.Cleaning.Lines

/-!
How the check of a folder fails. A malformed file only loses its own reports. Each other failure on
the text of a file ends the check of the folder, so that the reports on all files are lost.
-/

namespace CodeAudit

def Lint.Confined (α : Type) (x : Lint α) : Prop :=
  ∀ c : Context, c.file.isSome = true → match x c with
    | (.ok _, c') => c'.file.isSome = true
    | (.error e, _) => e.OfText

theorem Lint.confined_compositional : Compositional Confined where
  pure _ _ hc := hc
  bind := by
    intro α β x f hx hf c hc
    have hfirst := hx c hc
    have hbind : (x >>= f) c = ExceptT.bindCont f (x c).1 (x c).2 := rfl
    rw [hbind]
    rcases hrun : x c with ⟨e | b, c'⟩
    · rw [hrun] at hfirst
      exact hfirst
    · rw [hrun] at hfirst
      exact hf b c' hfirst
  throw he _ _ := he
  lift := by
    intro α x hx c hc
    cases x with
    | error e => exact hx e rfl
    | ok a => exact hc
  get hf c hc := hf c hc c hc
  setLine _ _ hc := hc
  setOwnIncludes _ hc := hc
  inClass := by
    intro α x hx c hc
    have hinside := hx { c with scope := .classBody } hc
    rw [Class.inClass]
    rcases hrun : x { c with scope := .classBody } with ⟨e | a, c'⟩
    · rw [hrun] at hinside
      exact hinside
    · rw [hrun] at hinside
      exact hinside

namespace Audit

theorem sourceText_cases (content : ByteArray) :
    sourceText (.ok content) = .error (.unreadable .notUtf8) ∨
      ∃ s, sourceText (.ok content) = .ok s := by
  unfold sourceText
  dsimp only
  split
  · exact .inl rfl
  · rename_i s _
    obtain ⟨t, ht, -⟩ := Cleaning.clean_trimmed s
    exact .inr ⟨t, ht⟩

namespace Call

theorem lint_of_error {k : Call} {e : Failure} (h : sourceText k.content = .error e) (c : Context) :
    k.lint c = (.error e, c) := by
  rw [lint, h]
  rfl

theorem lint_of_text {k : Call} {s : Text} (h : sourceText k.content = .ok s) :
    k.lint = SourceText.check s 0 := by
  rw [lint, h]
  rfl

theorem ofText_of_check {k : Call} {content : ByteArray} (hk : k.content = .ok content)
    {e : Failure} (h : (k.check {}).1 = .error e) : e.OfText := by
  rcases sourceText_cases content with hsource | ⟨s, hsource⟩
  · rw [← hk] at hsource
    rw [(k.check_of_lint {} (lint_of_error hsource _)).1] at h
    cases h
  · rw [← hk] at hsource
    have hcheck := SourceText.check_of_parts Lint.confined_compositional s 0 (k.context {}) rfl
    rcases hrun : SourceText.check s 0 (k.context {}) with ⟨d | reports, c⟩
    · rw [hrun] at hcheck
      rw [← lint_of_text hsource] at hrun
      rw [(k.check_of_lint {} hrun).1, outcome] at h
      · obtain rfl := Except.error.inj h
        exact hcheck
      · rintro rfl
        rcases hcheck with hcheck | hcheck
        · cases hcheck
        · exact absurd hcheck (by decide)
    · rw [← lint_of_text hsource] at hrun
      rw [(k.check_of_lint {} hrun).1] at h
      cases h

end Call

def Passes (r : Outcome) : Prop := (∃ reports, r = .ok reports) ∨ r = .error .malformed

theorem fatal?_error {e : Failure} (he : e ≠ .malformed) : fatal? (.error e) = some e := by
  rw [fatal?]
  exact he

theorem passes_iff (r : Outcome) : Passes r ↔ fatal? r = none := by
  cases r with
  | ok reports => exact ⟨fun _ => rfl, fun _ => .inl ⟨reports, rfl⟩⟩
  | error e =>
    by_cases he : e = .malformed
    · subst he
      exact ⟨fun _ => rfl, fun _ => .inr rfl⟩
    · rw [fatal?_error he]
      constructor
      · rintro (⟨_, h⟩ | h)
        · cases h
        · exact absurd (Except.error.inj h) he
      · intro h
        cases h

theorem fatal?_eq_some {r : Outcome} {e : Failure} (h : fatal? r = some e) :
    r = .error e ∧ e ≠ .malformed := by
  cases r with
  | ok reports => cases h
  | error d =>
    by_cases hd : d = .malformed
    · subst hd
      cases h
    · rw [fatal?_error hd] at h
      obtain rfl := Option.some.inj h
      exact ⟨rfl, hd⟩

theorem visitsOf_readable {path : Text} {d : Folder} {v : Visit} (h : v ∈ d.visitsOf path) :
    ∃ content, v.content = .ok content := by
  obtain ⟨x, -, rfl⟩ := List.mem_map.mp h
  exact ⟨x.2, rfl⟩

theorem subVisits_readable {path : Text} {d : Folder} {v : Visit} (h : v ∈ d.subVisits path) :
    ∃ content, v.content = .ok content := by
  induction d generalizing path with
  | empty => cases h
  | file name content others ih => exact ih h
  | sub name inside others hinside hothers =>
    rw [Folder.subVisits, List.mem_append, List.mem_append] at h
    rcases h with (h | h) | h
    · exact visitsOf_readable h
    · exact hinside h
    · exact hothers h

theorem walk_readable {path : Text} {d : Folder} {v : Visit} (h : v ∈ d.walk path) :
    ∃ content, v.content = .ok content := by
  unfold Folder.walk at h
  split at h
  · rcases List.mem_append.mp h with h | h
    · exact visitsOf_readable h
    · exact subVisits_readable h
  · cases h

theorem folderOutcome_cases {α : Type} (f : α → Outcome) (xs : List α) :
    ((∀ x ∈ xs, Passes (f x)) ∧ folderOutcome (xs.map f) = .ok (xs.flatMap (contributed ∘ f))) ∨
      ∃ before x after e, xs = before ++ x :: after ∧ (∀ y ∈ before, Passes (f y)) ∧
        f x = .error e ∧ e ≠ .malformed ∧ folderOutcome (xs.map f) = .error e := by
  rw [folderOutcome, List.findSome?_map]
  cases hfatal : xs.findSome? (fatal? ∘ f) with
  | none =>
    refine .inl ⟨fun x hx => (passes_iff _).mpr (List.findSome?_eq_none_iff.mp hfatal x hx), ?_⟩
    rw [List.flatMap_map]
    rfl
  | some e =>
    obtain ⟨before, x, after, rfl, hx, hbefore⟩ := List.findSome?_eq_some_iff.mp hfatal
    obtain ⟨hx, he⟩ := fatal?_eq_some hx
    have hpass : ∀ y ∈ before, Passes (f y) := fun y hy => (passes_iff _).mpr (hbefore y hy)
    exact .inr ⟨before, x, after, e, rfl, hpass, hx, he, rfl⟩

def sourceVisits (d : Folder) (path : Text) : List Visit := (d.walk path).filter (isSource ·.name)

def visitOutcome (home : Text) (v : Visit) : Outcome := ((visitCall home v).check {}).1

theorem escaping_of_visitOutcome {home path : Text} {d : Folder} {v : Visit}
    (hv : v ∈ sourceVisits d path) {e : Failure} (h : visitOutcome home v = .error e)
    (he : e ≠ .malformed) : e ∈ Failure.escaping := by
  obtain ⟨content, hcontent⟩ := walk_readable (List.mem_filter.mp hv).1
  exact (Call.ofText_of_check (k := visitCall home v) hcontent h).resolve_left he

/-- What the check of the source files `vs` comes to: the reports on all of them, or the failure of
the first that does not pass. -/
inductive Settled (home : Text) (vs : List Visit) : Except Failure (List Report) → Prop where
  | whole (h : ∀ v ∈ vs, Passes (visitOutcome home v)) :
      Settled home vs (.ok (vs.flatMap (contributed ∘ visitOutcome home)))
  | stopped (before : List Visit) (v : Visit) (after : List Visit) (e : Failure)
      (hvs : vs = before ++ v :: after) (hbefore : ∀ w ∈ before, Passes (visitOutcome home w))
      (hv : visitOutcome home v = .error e) (he : e ∈ Failure.escaping) :
      Settled home vs (.error e)

theorem checkFolder_settled (ks : List Call) (home path : Text) (d : Folder) :
    Settled home (sourceVisits d path)
      (checkFolder home (d.walk path) (Call.checkAll ks {}).2).1 := by
  have hfresh := (Call.checkAll_of_fresh ks {} Session.fresh_empty).2
  rw [checkFolder_of_fresh home (d.walk path) _ hfresh]
  change Settled home _ (folderOutcome ((sourceVisits d path).map (visitOutcome home)))
  rcases folderOutcome_cases (visitOutcome home) (sourceVisits d path) with
    ⟨hpass, hfolder⟩ | ⟨before, v, after, e, hvs, hbefore, hv, he, hfolder⟩
  · rw [hfolder]
    exact .whole hpass
  · have hmem : v ∈ sourceVisits d path := by
      rw [hvs]
      exact List.mem_append_right _ List.mem_cons_self
    rw [hfolder]
    exact .stopped before v after e hvs hbefore hv (escaping_of_visitOutcome hmem hv he)

def failingTexts : List (Failure × String) := [
  (.outOfRange, "class cit\n\x7b\n\x7d;\n"),
  (.noToken, "class citA \x7bcitA()"),
  (.openClass, "class citA \x7b\n+;"),
  (.noBody, "int f()"),
  (.namelessInclude, "#include \"\"\n"),
  (.nestedInItself, "void f()\n\x7b\nwhile((a)\x7b\n\x7d\n\x7d\n"),
  (.endless, "int f()\x7ba << b\x7d")]

def oneFile (text : String) : Folder :=
  .sub "d".toList (.file "a.cpp".toList text.toUTF8 .empty) .empty

def failure? {α : Type} : Except Failure α → Option Failure
  | .ok _ => none
  | .error e => some e

theorem eq_error_of_failure? {α : Type} {x : Except Failure α} {e : Failure}
    (h : failure? x = some e) : x = .error e := by
  cases x with
  | ok a => cases h
  | error d => rw [Option.some.inj h]

theorem failure?_failingTexts : ∀ x ∈ failingTexts,
    failure? (checkFolder [] ((oneFile x.2).walk "d".toList) {}).1 = some x.1 := by
  decide +kernel

theorem exists_of_mem_escaping (ks : List Call) {e : Failure} (he : e ∈ Failure.escaping) :
    ∃ (home path : Text) (d : Folder),
      (checkFolder home (d.walk path) (Call.checkAll ks {}).2).1 = .error e := by
  have hfst : failingTexts.map Prod.fst = Failure.escaping := rfl
  rw [← hfst] at he
  obtain ⟨x, hx, rfl⟩ := List.mem_map.mp he
  refine ⟨[], "d".toList, oneFile x.2, ?_⟩
  have hfresh := (Call.checkAll_of_fresh ks {} Session.fresh_empty).2
  rw [checkFolder_of_fresh _ _ _ hfresh, ← checkFolder_of_fresh _ _ _ Session.fresh_empty]
  exact eq_error_of_failure? (failure?_failingTexts x hx)

/-- After any calls, the check of a folder gives the reports on its source files, without those on
malformed ones, or it fails at the first file that fails in another way; and these other ways are
the ones listed. -/
theorem checkFolder_ends_or_stops (ks : List Call) (home path : Text) (d : Folder) :
    Settled home (sourceVisits d path)
        (checkFolder home (d.walk path) (Call.checkAll ks {}).2).1 ∧
      ∀ e, (∃ (home path : Text) (d : Folder),
          (checkFolder home (d.walk path) (Call.checkAll ks {}).2).1 = .error e) ↔
        e ∈ Failure.escaping := by
  refine ⟨checkFolder_settled ks home path d, fun e => ⟨?_, exists_of_mem_escaping ks⟩⟩
  rintro ⟨home, path, d, h⟩
  have hsettled := checkFolder_settled ks home path d
  rw [h] at hsettled
  cases hsettled with
  | stopped before v after e hvs hbefore hv he => exact he

def twoFiles : Folder :=
  .sub "d".toList
    (.file "a.cpp".toList "class cit\n\x7b\n\x7d;\n".toUTF8
      (.file "b.cpp".toList "#define foo 1\n".toUTF8 .empty))
    .empty

theorem checkFolder_loses_reports :
    (checkFolder [] (twoFiles.walk "d".toList) {}).1 = .error .outOfRange ∧
      (checkFile [] "d/b.cpp".toList (.ok "#define foo 1\n".toUTF8) {}).1 =
        .ok (some [⟨1, .macroLead, some "foo".toList, some "/d/b.cpp".toList⟩]) := by
  constructor
  · exact eq_error_of_failure? (by decide +kernel)
  · exact Scan.eq_ok_of_toOption (by decide +kernel)

end Audit

end CodeAudit
