import CodeAudit.Audit
import CodeAudit.Proofs.SourceText.Scope

namespace CodeAudit

structure Session.Fresh (t : Session) : Prop where
  ownIncludes : t.context.ownIncludes = false
  scope : t.context.scope = .file

theorem Session.fresh_empty : ({} : Session).Fresh := ⟨rfl, rfl⟩

namespace Audit

abbrev Outcome := Except Failure (Option (List Report))

variable {α β : Type}

theorem bind_ok {x : Audit α} {f : α → Audit β} {t u : Session} {a : α} (h : x t = (.ok a, u)) :
    (x >>= f) t = f a u := by
  have hbind : (x >>= f) t = ExceptT.bindCont f (x t).1 (x t).2 := rfl
  rw [hbind, h]
  rfl

theorem bind_error {x : Audit α} {f : α → Audit β} {t u : Session} {e : Failure}
    (h : x t = (.error e, u)) : (x >>= f) t = (.error e, u) := by
  have hbind : (x >>= f) t = ExceptT.bindCont f (x t).1 (x t).2 := rfl
  rw [hbind, h]
  rfl

theorem bind_setContext (g : Context → Context) (f : Unit → Audit β) (t : Session) :
    (setContext g >>= f) t = f () { t with context := g t.context } := rfl

structure Call where
  home : Text
  path : Text
  content : Except ReadFailure ByteArray

namespace Call

def check (k : Call) : Session → Outcome × Session :=
  checkFile k.home k.path k.content

def context (k : Call) (c : Context) : Context :=
  { c with file := some (Path.base k.path), line := 1 }

def lint (k : Call) : Lint (List Report) := do
  SourceText.check (← (sourceText k.content : Lint _)) 0

def outcome (k : Call) : Except Failure (List Report) → Outcome
  | .ok reports => .ok (some (located k.home k.path reports))
  | .error (.unreadable .notUtf8) => .ok none
  | .error e => .error e

theorem check_of_lint (k : Call) (t : Session) {r : Except Failure (List Report)} {c : Context}
    (h : k.lint (k.context t.context) = (r, c)) :
    (k.check t).1 = k.outcome r ∧ (k.check t).2.context = { c with ownIncludes := false } := by
  have hattempt : checkFile.attempt (Audit.lint k.lint) { t with context := k.context t.context } =
      (.ok r, { t with context := c }) := by
    rw [checkFile.attempt, Audit.lint, h]
  rw [lint, context] at hattempt
  rw [check, checkFile, bind_setContext, bind_ok hattempt]
  split
  · exact ⟨rfl, rfl⟩
  · exact ⟨rfl, rfl⟩
  · rename_i e hne
    refine ⟨?_, rfl⟩
    rw [outcome]
    · rfl
    · exact hne

theorem lint_keepsScope (k : Call) : Lint.KeepsScope _ k.lint := by
  intro c hc
  rw [lint, Lint.wp_bind, Lint.wp_lift]
  exact ⟨fun s _ => SourceText.check_keepsScope s 0 c hc, fun _ _ => id⟩

theorem check_fresh (k : Call) (t : Session) (ht : t.Fresh) : (k.check t).2.Fresh := by
  have hc := (k.check_of_lint t rfl).2
  refine ⟨by rw [hc], ?_⟩
  rw [hc]
  exact k.lint_keepsScope.after rfl ht.scope

theorem context_eq_of_fresh (k : Call) {t u : Session} (ht : t.Fresh) (hu : u.Fresh) :
    k.context t.context = k.context u.context := by
  simp only [context, ht.ownIncludes, hu.ownIncludes, ht.scope, hu.scope]

theorem check_of_fresh (k : Call) {t : Session} (ht : t.Fresh) : (k.check t).1 = (k.check {}).1 := by
  rw [(k.check_of_lint t rfl).1, (k.check_of_lint {} rfl).1,
    k.context_eq_of_fresh ht Session.fresh_empty]

def checkAll : List Call → Session → List Outcome × Session
  | [], t => ([], t)
  | k :: ks, t =>
    let (r, u) := k.check t
    let (rs, v) := checkAll ks u
    (r :: rs, v)

theorem checkAll_of_fresh (ks : List Call) (t : Session) (ht : t.Fresh) :
    (checkAll ks t).1 = ks.map (fun k => (k.check {}).1) ∧ (checkAll ks t).2.Fresh := by
  induction ks generalizing t with
  | nil => exact ⟨rfl, ht⟩
  | cons k ks ih =>
    obtain ⟨h1, h2⟩ := ih (k.check t).2 (k.check_fresh t ht)
    refine ⟨?_, h2⟩
    rw [List.map_cons, ← k.check_of_fresh ht, ← h1]
    rfl

end Call

def contributed : Outcome → List Report
  | .ok reports => reports.getD []
  | .error _ => []

def fatal? : Outcome → Option Failure
  | .ok _ => none
  | .error .malformed => none
  | .error e => some e

def folderOutcome (outcomes : List Outcome) : Except Failure (List Report) :=
  match outcomes.findSome? fatal? with
  | some e => .error e
  | none => .ok (outcomes.flatMap contributed)

def visitCall (home : Text) (v : Visit) : Call := ⟨home, v.path, v.content⟩

theorem checkVisit_of_fresh (home : Text) (v : Visit) (t : Session) (ht : t.Fresh) :
    (checkVisit home v t).1 = folderOutcome [((visitCall home v).check {}).1] ∧
      (checkVisit home v t).2.Fresh := by
  let u : Session := { t with log := t.log ++ [⟨.info, "解析文件".toList ++ v.name⟩] }
  have hu : u.Fresh := ⟨ht.ownIncludes, ht.scope⟩
  have hfresh := (visitCall home v).check_fresh u hu
  have hattempt : checkFile.attempt (checkFile home v.path v.content) u =
      (.ok ((visitCall home v).check u).1, ((visitCall home v).check u).2) := rfl
  rw [← (visitCall home v).check_of_fresh hu]
  generalize (visitCall home v).check u = p at hfresh hattempt
  obtain ⟨r, w⟩ := p
  have hlog : (log .info ("解析文件".toList ++ v.name) : Audit Unit) t = (.ok (), u) := rfl
  rw [checkVisit, bind_ok hlog, bind_ok hattempt]
  dsimp only
  split
  · rename_i reports
    have hone : folderOutcome [.ok reports] = .ok (reports.getD []) := by
      simp [folderOutcome, fatal?, contributed]
    exact ⟨hone.symm, hfresh⟩
  · exact ⟨rfl, hfresh.ownIncludes, hfresh.scope⟩
  · rename_i e hne
    refine ⟨?_, hfresh⟩
    have hfatal : fatal? (.error e) = some e := by
      rw [fatal?]
      exact hne
    simp only [folderOutcome, List.findSome?_cons, hfatal]
    rfl

theorem folderOutcome_cons (r : Outcome) (rs : List Outcome) :
    folderOutcome (r :: rs) = do
      let reports ← folderOutcome [r]
      return reports ++ (← folderOutcome rs) := by
  simp only [folderOutcome, List.findSome?_cons, List.findSome?_nil, List.flatMap_cons,
    List.flatMap_nil, List.append_nil]
  cases fatal? r with
  | some e => rfl
  | none => cases rs.findSome? fatal? <;> rfl

theorem checkFolder_of_fresh (home : Text) (vs : List Visit) (t : Session) (ht : t.Fresh) :
    (checkFolder home vs t).1 = folderOutcome
      ((vs.filter (isSource ·.name)).map fun v => ((visitCall home v).check {}).1) := by
  induction vs generalizing t with
  | nil => rfl
  | cons v vs ih =>
    rw [checkFolder]
    by_cases hv : isSource v.name
    · obtain ⟨h1, h2⟩ := checkVisit_of_fresh home v t ht
      simp only [List.filter_cons, hv, ↓reduceIte, List.map_cons]
      rw [folderOutcome_cons, ← h1]
      rcases hr : checkVisit home v t with ⟨e | reports, u⟩
      · rw [bind_error hr]
        rfl
      · rw [hr] at h2
        rw [bind_ok hr, ← ih u h2]
        rcases hs : checkFolder home vs u with ⟨e | rest, w⟩
        · rw [bind_error hs]
          rfl
        · rw [bind_ok hs]
          rfl
    · simp only [List.filter_cons, hv, Bool.false_eq_true, ↓reduceIte, ← ih t ht]
      have hpure : (pure [] : Audit (List Report)) t = (.ok [], t) := rfl
      rw [bind_ok hpure]
      rcases hs : checkFolder home vs t with ⟨e | rest, w⟩
      · rw [bind_error hs]
      · rw [bind_ok hs]
        rfl

theorem checks_isolated (ks : List Call) :
    (Call.checkAll ks {}).1 = ks.map (fun k => (k.check {}).1) ∧
      ∀ (home path : Text) (d : Folder),
        (checkFolder home (d.walk path) (Call.checkAll ks {}).2).1 = folderOutcome
          (((d.walk path).filter (isSource ·.name)).map fun v => ((visitCall home v).check {}).1) := by
  obtain ⟨h1, h2⟩ := Call.checkAll_of_fresh ks {} Session.fresh_empty
  exact ⟨h1, fun home path d => checkFolder_of_fresh home (d.walk path) _ h2⟩

end Audit

end CodeAudit
