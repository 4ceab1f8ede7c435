import CodeAudit.Command
import CodeAudit.Proofs.Audit.Steady

namespace CodeAudit.Command

open Audit

variable {tool : Tool} {home : Text} {d : Folder} {asked : List Request} {t : Session}

namespace Request

def arguments : Request → List Text
  | file path => ["-f".toList, path]
  | folder path => ["-d".toList, path]

def taken : Tool → Request → Request
  | .source, r => r
  | .stylesheet, file path => folder path
  | .stylesheet, folder path => file path

def setting : Request → Setting
  | file path => ⟨'f', path⟩
  | folder path => ⟨'d', path⟩

theorem request?_setting (tool : Tool) (r : Request) :
    r.setting.request? tool = some (r.taken tool) := by
  cases tool <;> cases r <;> rfl

end Request

def arguments (asked : List Request) : List Text := asked.flatMap Request.arguments

theorem settingsIn_arguments (asked : List Request) {fuel : Nat} (h : asked.length ≤ fuel) :
    settingsIn fuel (arguments asked) = .ok (asked.map Request.setting) := by
  induction asked generalizing fuel with
  | nil => cases fuel <;> rfl
  | cons r asked ih =>
    obtain ⟨fuel, rfl⟩ : ∃ n, fuel = n + 1 := ⟨fuel - 1, by rw [List.length_cons] at h; omega⟩
    have hrest := ih (Nat.le_of_succ_le_succ h)
    have hstep : settingsIn (fuel + 1) (arguments (r :: asked)) = (do
        return [r.setting] ++ (← settingsIn fuel (arguments asked))) := by
      cases r <;> rfl
    rw [hstep, hrest]
    rfl

theorem length_le_arguments (asked : List Request) : asked.length ≤ (arguments asked).length := by
  induction asked with
  | nil => exact Nat.le_refl 0
  | cons r asked ih =>
    have hr : r.arguments.length = 2 := by cases r <;> rfl
    have hcons : arguments (r :: asked) = r.arguments ++ arguments asked := List.flatMap_cons
    rw [hcons, List.length_append, hr, List.length_cons]
    omega

theorem requests_arguments (tool : Tool) (asked : List Request) :
    requests tool (arguments asked) = .ok (asked.map (Request.taken tool)) := by
  rw [requests, settings, settingsIn_arguments asked (length_le_arguments asked)]
  change Except.ok ((asked.map Request.setting).filterMap (·.request? tool)) = _
  rw [List.filterMap_map, ← List.filterMap_eq_map]
  congr 2
  funext r
  exact r.request?_setting tool

theorem check_steady (tool : Tool) (home : Text) (x : Loaded) : Steady (check tool home x) := by
  cases tool with
  | source =>
    cases x with
    | file path content => exact Audit.checkFile_steady home path content
    | folder visits => exact (Audit.checkFolder_steady home visits).bind fun _ => steady_pure _
  | stylesheet =>
    cases x with
    | file path content => exact Stylesheet.checkFile_steady home path content
    | folder visits => exact (Stylesheet.checkFolder_steady home visits).bind fun _ => steady_pure _

namespace Request

def outcome (tool : Tool) (home : Text) (d : Folder) (r : Request) : Audit.Outcome :=
  (check tool home (load d r) {}).1

def reports (tool : Tool) (home : Text) (d : Folder) (r : Request) : List Report :=
  contributed (r.outcome tool home d)

def Listed (tool : Tool) (home : Text) (d : Folder) (r : Request) : Prop :=
  ∃ reports, r.outcome tool home d = .ok (some reports)

theorem Listed.outcome_eq {r : Request} (h : r.Listed tool home d) :
    r.outcome tool home d = .ok (some (r.reports tool home d)) := by
  obtain ⟨reports, hr⟩ := h
  rw [Request.reports, hr]
  rfl

/-- The path leads to what is asked for in the folder `d` that the tool runs in. What an absolute
path leads to is left out, and what lies outside of this folder. -/
def Found (d : Folder) : Request → Prop
  | file path => ∃ content, d.find path = .ok (.file content)
  | folder path => ∃ inside, d.find path = .ok (.folder inside)

/-- There are reports, perhaps none, on what is found. As in `Found`, it is asked for by a relative
path that does not lead out of the folder. -/
structure Answered (tool : Tool) (home : Text) (d : Folder) (r : Request) : Prop where
  found : r.Found d
  listed : r.Listed tool home d

end Request

theorem check_load (tool : Tool) (home : Text) (d : Folder) (r : Request) (ht : t.Fresh) :
    ∃ u : Session, u.Fresh ∧ check tool home (load d r) t = (r.outcome tool home d, u) := by
  obtain ⟨hsame, hfresh⟩ := check_steady tool home (load d r) t ht
  exact ⟨_, hfresh, Prod.ext hsame rfl⟩

theorem checkAll_of_listed {rs : List Request} {q : Request} (h : ∀ r ∈ rs, r.Listed tool home d)
    (hq : q.Listed tool home d) (last : Option (List Report)) (ht : t.Fresh) :
    (checkAll tool home last ((rs ++ [q]).map (load d)) t).1 = .ok (q.reports tool home d) := by
  induction rs generalizing last t with
  | nil =>
    obtain ⟨u, -, hrun⟩ := check_load tool home d q ht
    rw [hq.outcome_eq] at hrun
    rw [List.nil_append, List.map_singleton, checkAll, bind_ok hrun]
    rfl
  | cons r rs ih =>
    obtain ⟨hr, hrs⟩ := List.forall_mem_cons.mp h
    obtain ⟨u, hu, hrun⟩ := check_load tool home d r ht
    rw [hr.outcome_eq] at hrun
    rw [List.cons_append, List.map_cons, checkAll, bind_ok hrun]
    exact ih hrs _ hu

theorem checkAll_of_error {rs : List Request} {e : Failure}
    (h : ∀ r ∈ rs, r.Listed tool home d ∨ r.outcome tool home d = .error e)
    (he : ∃ r ∈ rs, r.outcome tool home d = .error e) (last : Option (List Report))
    (ht : t.Fresh) : (checkAll tool home last (rs.map (load d)) t).1 = .error e := by
  induction rs generalizing last t with
  | nil =>
    obtain ⟨r, hr, -⟩ := he
    cases hr
  | cons r rs ih =>
    obtain ⟨hr, hrs⟩ := List.forall_mem_cons.mp h
    obtain ⟨u, hu, hrun⟩ := check_load tool home d r ht
    rw [List.map_cons, checkAll]
    rcases hr with hr | hr
    · rw [hr.outcome_eq] at hrun
      rw [bind_ok hrun]
      refine ih hrs ?_ _ hu
      obtain ⟨q, hq, hqe⟩ := he
      rcases List.mem_cons.mp hq with rfl | hq
      · rw [hr.outcome_eq] at hqe
        cases hqe
      · exact ⟨q, hq, hqe⟩
    · rw [hr] at hrun
      rw [bind_error hrun]

namespace Outcome

structure Tells (x : Outcome) (tool : Tool) (args : List Text) (reports : List Report) : Prop where
  out : x.out = heading tool args ++ summary reports
  fault : x.fault = none

structure Stops (x : Outcome) (tool : Tool) (args : List Text) (e : Failure) : Prop where
  out : x.out = heading tool args
  fault : x.fault = some (.failure e)

end Outcome

theorem break_not_mem_number (n : Nat) : '\n' ∉ (toString n).toList := by
  intro h
  rw [Nat.toString_eq_repr, Nat.toList_repr] at h
  exact absurd (Nat.isDigit_of_mem_toDigits (by decide) (by decide) h) (by decide)

theorem summary_append_eq_iff (rs qs : List Report) :
    summary (rs ++ qs) = summary qs ↔ rs = [] := by
  constructor
  · intro h
    have hcount := congrArg (List.count '\n') h
    simp only [summary, List.flatMap_append, List.count_append,
      List.count_eq_zero.mpr (break_not_mem_number _)] at hcount
    have hzero : (rs.flatMap fun r => r.render.toList ++ ['\n']).count '\n' = 0 := by omega
    cases rs with
    | nil => rfl
    | cons r rs => exact absurd (by simp) (List.count_eq_zero.mp hzero)
  · rintro rfl
    rfl

theorem Outcome.Tells.append_iff {x : Outcome} {args : List Text} {rs qs : List Report}
    (h : x.Tells tool args qs) : x.Tells tool args (rs ++ qs) ↔ rs = [] := by
  rw [← summary_append_eq_iff rs qs]
  constructor
  · intro hall
    exact List.append_cancel_left (hall.out.symm.trans h.out)
  · intro hsame
    exact ⟨by rw [hsame, h.out], h.fault⟩

theorem run_eq (tool : Tool) (home : Text) (d : Folder) (asked : List Request) :
    run d tool home (arguments asked) =
      outcome tool home (arguments asked) (.ok ((asked.map (Request.taken tool)).map (load d))) := by
  rw [run, requests_arguments]
  rfl

theorem run_shows (tool : Tool) (home : Text) (d : Folder) (asked : List Request) :
    match (checkAll tool home none ((asked.map (Request.taken tool)).map (load d)) {}).1 with
    | .ok reports => (run d tool home (arguments asked)).Tells tool (arguments asked) reports
    | .error e => (run d tool home (arguments asked)).Stops tool (arguments asked) e := by
  rw [run_eq, outcome]
  rcases checkAll tool home none ((asked.map (Request.taken tool)).map (load d)) {} with
    ⟨e | reports, u⟩
  · exact ⟨rfl, rfl⟩
  · exact ⟨rfl, rfl⟩

theorem run_tells_last {before : List Request} {last : Request}
    (h : ∀ r ∈ before ++ [last], (r.taken tool).Listed tool home d) :
    (run d tool home (arguments (before ++ [last]))).Tells tool (arguments (before ++ [last]))
      ((last.taken tool).reports tool home d) := by
  have hbefore : ∀ r ∈ before.map (Request.taken tool), r.Listed tool home d := by
    rw [List.forall_mem_map]
    intro r hr
    exact h r (List.mem_append_left _ hr)
  have hlast := h last (by simp)
  have hrun := run_shows tool home d (before ++ [last])
  rw [List.map_append, List.map_singleton,
    checkAll_of_listed hbefore hlast none Session.fresh_empty] at hrun
  exact hrun

def TellsAll (tool : Tool) (home : Text) (d : Folder) (asked : List Request) : Prop :=
  (run d tool home (arguments asked)).Tells tool (arguments asked)
    (asked.flatMap (Request.reports tool home d))

theorem tellsAll_source_iff (before : List Request) (last : Request)
    (h : ∀ r ∈ before ++ [last], r.Answered .source home d) :
    TellsAll .source home d (before ++ [last]) ↔ ∀ r ∈ before, r.reports .source home d = [] := by
  have hlast : (run d .source home (arguments (before ++ [last]))).Tells .source
      (arguments (before ++ [last])) (last.reports .source home d) :=
    run_tells_last fun r hr => (h r hr).listed
  rw [TellsAll, List.flatMap_append, List.flatMap_singleton, ← List.flatMap_eq_nil_iff]
  exact hlast.append_iff

namespace Request

def isFile : Request → Bool
  | file _ => true
  | folder _ => false

theorem outcome_taken_file {r : Request} (h : r.Found d) (hr : r.isFile = true) :
    (r.taken .stylesheet).outcome .stylesheet home d = .ok (some []) := by
  cases r with
  | folder path => cases hr
  | file path =>
    obtain ⟨content, hfind⟩ := h
    have hwalk : d.walk path = [] := by rw [Folder.walk, hfind]
    simp only [taken, outcome, load, hwalk]
    rfl

theorem outcome_taken_folder {r : Request} (h : r.Found d) (hr : r.isFile = false) :
    (r.taken .stylesheet).outcome .stylesheet home d = .error (.unreadable .isFolder) := by
  cases r with
  | file path => cases hr
  | folder path =>
    obtain ⟨inside, hfind⟩ := h
    have hread : d.read path = .error .isFolder := by
      rw [Folder.read, hfind]
      rfl
    simp only [taken, outcome, load, hread]
    rfl

end Request

theorem run_stylesheet_of_files (home : Text) (hne : asked ≠ []) (h : ∀ r ∈ asked, r.Found d)
    (hfile : ∀ r ∈ asked, r.isFile = true) :
    (run d .stylesheet home (arguments asked)).Tells .stylesheet (arguments asked) [] := by
  obtain ⟨before, last, rfl⟩ : ∃ before last, asked = before ++ [last] :=
    ⟨_, _, (List.dropLast_concat_getLast hne).symm⟩
  have hnone : ∀ r ∈ before ++ [last],
      (r.taken .stylesheet).outcome .stylesheet home d = .ok (some []) :=
    fun r hr => Request.outcome_taken_file (h r hr) (hfile r hr)
  have hlast : (last.taken .stylesheet).reports .stylesheet home d = [] := by
    rw [Request.reports, hnone last (by simp)]
    rfl
  rw [← hlast]
  exact run_tells_last fun r hr => ⟨[], hnone r hr⟩

theorem run_stylesheet_of_folder (home : Text) (h : ∀ r ∈ asked, r.Found d)
    (hfolder : ∃ r ∈ asked, r.isFile = false) :
    (run d .stylesheet home (arguments asked)).Stops .stylesheet (arguments asked)
      (.unreadable .isFolder) := by
  have hall : ∀ r ∈ asked.map (Request.taken .stylesheet), r.Listed .stylesheet home d ∨
      r.outcome .stylesheet home d = .error (.unreadable .isFolder) := by
    rw [List.forall_mem_map]
    intro r hr
    cases hfile : r.isFile with
    | true => exact .inl ⟨[], Request.outcome_taken_file (h r hr) hfile⟩
    | false => exact .inr (Request.outcome_taken_folder (h r hr) hfile)
  obtain ⟨r, hr, hfile⟩ := hfolder
  have hrun := run_shows .stylesheet home d asked
  rw [checkAll_of_error hall ⟨_, List.mem_map_of_mem hr, Request.outcome_taken_folder (h r hr) hfile⟩
    none Session.fresh_empty] at hrun
  exact hrun

theorem tellsAll_stylesheet_iff (hne : asked ≠ []) (h : ∀ r ∈ asked, r.Found d) :
    TellsAll .stylesheet home d asked ↔
      ∀ r ∈ asked, r.isFile = true ∧ r.reports .stylesheet home d = [] := by
  by_cases hfile : ∀ r ∈ asked, r.isFile = true
  · have hnone := run_stylesheet_of_files home hne h hfile
    rw [TellsAll, ← List.append_nil (asked.flatMap _), hnone.append_iff, List.flatMap_eq_nil_iff]
    exact ⟨fun hall r hr => ⟨hfile r hr, hall r hr⟩, fun hall r hr => (hall r hr).2⟩
  · have hstop := run_stylesheet_of_folder home h (by simpa using hfile)
    constructor
    · intro hall
      have hfault := hstop.fault
      rw [hall.fault] at hfault
      cases hfault
    · intro hall
      exact absurd (fun r hr => (hall r hr).1) hfile

/-- A command prints the reports on its last request, as the tool takes it, and those alone. So the
source tool tells all exactly if there is nothing to report on the requests before. The style sheet
tool has no report on a file that it is asked for, and it fails if it is asked for a folder. -/
theorem only_last_request_reported (home : Text) (d : Folder) (asked before : List Request)
    (last : Request) (hasked : asked = before ++ [last]) :
    (∀ tool, (∀ r ∈ asked, (r.taken tool).Listed tool home d) →
      (run d tool home (arguments asked)).Tells tool (arguments asked)
        ((last.taken tool).reports tool home d)) ∧
    ((∀ r ∈ asked, r.Answered .source home d) →
      (TellsAll .source home d asked ↔ ∀ r ∈ before, r.reports .source home d = [])) ∧
    ((∀ r ∈ asked, r.Answered .stylesheet home d) →
      ((∀ r ∈ asked, r.isFile = true) →
        (run d .stylesheet home (arguments asked)).Tells .stylesheet (arguments asked) []) ∧
      ((∃ r ∈ asked, r.isFile = false) →
        (run d .stylesheet home (arguments asked)).Stops .stylesheet (arguments asked)
          (.unreadable .isFolder)) ∧
      (TellsAll .stylesheet home d asked ↔
        ∀ r ∈ asked, r.isFile = true ∧ r.reports .stylesheet home d = [])) := by
  subst hasked
  refine ⟨fun tool => run_tells_last, tellsAll_source_iff before last, ?_⟩
  intro h
  have hfound : ∀ r ∈ before ++ [last], r.Found d := fun r hr => (h r hr).found
  exact ⟨run_stylesheet_of_files home (by simp) hfound, run_stylesheet_of_folder home hfound,
    tellsAll_stylesheet_iff (by simp) hfound⟩

def firstSource : Request := .file "a.cpp".toList

def secondSource : Request := .file "b.cpp".toList

def twoSources : Folder :=
  .file "a.cpp".toList "#define foo 1\n".toUTF8
    (.file "b.cpp".toList "#define bar 1\n".toUTF8 .empty)

def sheet : Request := .file "a.qss".toList

def oneSheet : Folder := .file "a.qss".toList "b\x7b\x7d".toUTF8 .empty

theorem firstSource_outcome : firstSource.outcome .source [] twoSources =
    .ok (some [⟨1, .macroLead, some "foo".toList, some "/a.cpp".toList⟩]) :=
  Scan.eq_ok_of_toOption (by decide +kernel)

theorem secondSource_outcome : secondSource.outcome .source [] twoSources =
    .ok (some [⟨1, .macroLead, some "bar".toList, some "/b.cpp".toList⟩]) :=
  Scan.eq_ok_of_toOption (by decide +kernel)

theorem sheet_outcome : sheet.outcome .stylesheet [] oneSheet =
    .ok (some [⟨1, .foreignSelector, some "b\x7b\x7d".toList, some "/a.qss".toList⟩]) :=
  Scan.eq_ok_of_toOption (by decide +kernel)

theorem sources_answered : ∀ r ∈ [firstSource, secondSource], r.Answered .source [] twoSources := by
  rw [List.forall_mem_cons, List.forall_mem_singleton]
  exact ⟨⟨⟨_, rfl⟩, _, firstSource_outcome⟩, ⟨_, rfl⟩, _, secondSource_outcome⟩

theorem sheet_answered : ∀ r ∈ [sheet], r.Answered .stylesheet [] oneSheet := by
  rw [List.forall_mem_singleton]
  exact ⟨⟨_, rfl⟩, _, sheet_outcome⟩

theorem only_second_source_reported :
    (run twoSources .source [] (arguments [firstSource, secondSource])).Tells .source
      (arguments [firstSource, secondSource])
      [⟨1, .macroLead, some "bar".toList, some "/b.cpp".toList⟩] := by
  have h := (only_last_request_reported [] twoSources [firstSource, secondSource] [firstSource]
    secondSource rfl).1 .source fun r hr => (sources_answered r hr).listed
  rw [Request.taken, Request.reports, secondSource_outcome] at h
  exact h

theorem requests_lost :
    ((∀ r ∈ [firstSource, secondSource], r.Answered .source [] twoSources) ∧
      ¬TellsAll .source [] twoSources [firstSource, secondSource]) ∧
    (∀ r ∈ [sheet], r.Answered .stylesheet [] oneSheet) ∧
      ¬TellsAll .stylesheet [] oneSheet [sheet] := by
  refine ⟨⟨sources_answered, ?_⟩, sheet_answered, ?_⟩
  · intro hall
    have hiff := tellsAll_source_iff [firstSource] secondSource sources_answered
    have hnone := hiff.mp hall firstSource (by simp)
    rw [Request.reports, firstSource_outcome] at hnone
    cases hnone
  · intro hall
    have hfound : ∀ r ∈ [sheet], r.Found oneSheet := fun r hr => (sheet_answered r hr).found
    have hnone := ((tellsAll_stylesheet_iff (by simp) hfound).mp hall sheet (by simp)).2
    rw [Request.reports, sheet_outcome] at hnone
    cases hnone

end CodeAudit.Command
