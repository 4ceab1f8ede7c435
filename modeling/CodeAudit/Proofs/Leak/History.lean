import CodeAudit.Proofs.Leak.Report

namespace CodeAudit.Leak

structure Call where
  content : Except ReadFailure ByteArray
  most : Int

namespace Call

def run (known : List Block) (c : Call) : Profile := profile known c.content c.most

def blocks (c : Call) : List Block := (readReport c.content).1

theorem run_blocks (known : List Block) (c : Call) : (c.run known).blocks = known ++ c.blocks := by
  rw [run, profile, blocks]
  cases readReport c.content with
  | mk read failure => cases failure <;> rfl

end Call

def knownAfter (history : List Call) : List Block :=
  history.foldl (fun known c => (c.run known).blocks) []

theorem knownAfter_eq (history : List Call) : knownAfter history = history.flatMap Call.blocks := by
  have h : ∀ known, history.foldl (fun known c => (c.run known).blocks) known =
      known ++ history.flatMap Call.blocks := by
    induction history with
    | nil => simp
    | cons c history ih =>
      intro known
      rw [List.foldl_cons, ih, c.run_blocks, List.flatMap_cons, List.append_assoc]
  exact h []

theorem knownAfter_eq_nil_iff (history : List Call) :
    knownAfter history = [] ↔ ∀ c ∈ history, c.blocks = [] := by
  rw [knownAfter_eq, List.flatMap_eq_nil_iff]

/-- A report that ends early: no line with a hash and a count follows its last header. -/
structure Broken where
  items : List Item
  head : Text
  rest : List Text
  head_starts : ∃ bytes, headBytes? head = some (.ok bytes)
  rest_start : ∀ line ∈ rest.head?, hashAndCount? line = none

namespace Broken

variable (x : Broken)

def lines : List Text := x.items.flatMap Item.lines ++ x.head :: x.rest

def blocks : List Block := x.items.flatMap Item.blocks

theorem blocksFrom_lines : blocksFrom none .outside x.lines = (x.blocks, some .malformed) := by
  obtain ⟨bytes, hbytes⟩ := x.head_starts
  have hrest : blocksFrom none (.headed bytes x.head) x.rest = ([], some .malformed) := by
    cases h : x.rest with
    | nil => rfl
    | cons line rest =>
      have hline := x.rest_start line (by rw [h]; rfl)
      rw [blocksFrom, hline]
  rw [lines, blocksFrom_items, blocksFrom, hbytes]
  simp only [hrest, List.append_nil]
  rfl

theorem profile_lines {bytes : ByteArray} (known : List Block) (most : Int)
    (h : Content.lines bytes = (x.lines, true)) :
    profile known (.ok bytes) most = ⟨[], known ++ x.blocks, some .malformed⟩ := by
  have hread : readReport (.ok bytes) = (x.blocks, some .malformed) := by
    rw [readReport, h]
    exact x.blocksFrom_lines
  rw [profile, hread]

end Broken

theorem profile_after_history (history : List Call) (most : Int) (x : Report) (bytes : ByteArray)
    (h : Content.lines bytes = (x.lines, true)) :
    let known := history.flatMap Call.blocks
    let now := profile (knownAfter history) (.ok bytes) most
    let alone := profile [] (.ok bytes) most
    (now.blocks = known ++ x.blocks ∧
      (now.out, now.failure) = printLines (profileLines most (known ++ x.blocks))) ∧
    ((now.blocks = alone.blocks ↔ ∀ c ∈ history, c.blocks = []) ∧
      ((∀ c ∈ history, c.blocks = []) → now = alone)) ∧
    (∀ c : Call, (c.run (knownAfter history)).blocks = knownAfter history ↔ c.blocks = []) ∧
    ∀ (y : Broken) (content : ByteArray), Content.lines content = (y.lines, true) →
      profile (knownAfter history) (.ok content) most =
        ⟨[], known ++ y.blocks, some .malformed⟩ := by
  intro known now alone
  have hknown : knownAfter history = known := knownAfter_eq history
  have hnow : now = profile known (.ok bytes) most := congrArg (profile · _ _) hknown
  have halone : alone.blocks = x.blocks := by simp only [alone, x.profile_lines [] most h]; rfl
  rw [x.profile_lines known most h] at hnow
  refine ⟨⟨?_, ?_⟩, ⟨?_, ?_⟩, ?_, ?_⟩
  · rw [hnow]
  · rw [hnow]
  · rw [hnow, halone, ← knownAfter_eq_nil_iff, hknown]
    exact List.append_left_eq_self
  · intro hempty
    have hnil := (knownAfter_eq_nil_iff history).mpr hempty
    simp only [now, alone, hnil]
  · intro c
    rw [c.run_blocks]
    exact List.append_right_eq_self
  · intro y content hy
    rw [y.profile_lines _ most hy, hknown]

def oneBlock : Report := ⟨[], some oneEntry⟩

def oneBlockFile : ByteArray :=
  ("- Block 1 at 0x1: 2 bytes -\n" ++ "Leak Hash: 0xA Count: 3\n").toUTF8

def brokenFile : ByteArray :=
  ("- Block 1 at 0x1: 2 bytes -\n" ++ "Leak Hash: 0xA Count: 3\n" ++ "\n" ++
    "- Block 2 at 0x2: 5 bytes -\n").toUTF8

theorem lines_oneBlockFile : Content.lines oneBlockFile = (oneBlock.lines, true) := by
  decide +kernel

theorem oneBlock_after_itself :
    Content.lines oneBlockFile = (oneBlock.lines, true) ∧
    (profile (knownAfter [⟨.ok oneBlockFile, 20⟩]) (.ok oneBlockFile) 20).blocks =
      oneBlock.blocks ++ oneBlock.blocks := by
  have hread : [Call.mk (.ok oneBlockFile) 20].flatMap Call.blocks = oneBlock.blocks := by
    simp [Call.blocks, oneBlock.readReport_lines lines_oneBlockFile]
  have hnow := (profile_after_history [⟨.ok oneBlockFile, 20⟩] 20 oneBlock oneBlockFile
    lines_oneBlockFile).1.1
  rw [hread] at hnow
  exact ⟨lines_oneBlockFile, hnow⟩

theorem mergeSort_replicate (key : Block → Nat) (n : Nat) (b : Block) :
    (List.replicate n b).mergeSort (fun x y => key x ≤ key y) = List.replicate n b :=
  List.mergeSort_of_pairwise (List.pairwise_replicate.mpr (.inr (decide_eq_true le_rfl)))

theorem profile_tells_earlier_blocks :
    let first := profile [] (.ok oneBlockFile) 20
    let second := profile first.blocks (.ok oneBlockFile) 20
    let failed := profile [] (.ok brokenFile) 20
    second.out ≠ first.out ∧ second.blocks ≠ first.blocks ∧
      failed.failure = some .malformed ∧ failed.blocks ≠ [] := by
  intro first second failed
  have hfirst : first = _ := oneBlock.profile_lines [] 20 lines_oneBlockFile
  have hsecond : second = _ := oneBlock.profile_lines first.blocks 20 lines_oneBlockFile
  have hblocks : oneBlock.blocks = List.replicate 1 oneEntry.block := rfl
  refine ⟨?_, ?_, ?_⟩
  · rw [hsecond, hfirst]
    simp only [List.nil_append, hblocks, List.replicate_append_replicate, profileLines, topMemory,
      topCount, byTotal, byCount, mergeSort_replicate]
    decide +kernel
  · rw [hsecond, hfirst]
    decide
  · decide +kernel

end CodeAudit.Leak
