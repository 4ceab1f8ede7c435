import CodeAudit.Leak.Profile
import CodeAudit.Proofs.Pattern.Walk
import CodeAudit.Proofs.Shape.Declared
import Mathlib.Data.Nat.Digits.Defs

/-!
Leak reports that are written line by line: blocks, each with a header, a line with a hash and a
count, any lines after it and an empty line, and other lines between them. Reading takes each line
for what it is written for, so that there is one block for each that is written.
-/

namespace CodeAudit.Leak

open Pattern

structure Numeral where
  digits : Text
  digits_ne_nil : digits ≠ []
  all_isDecimal : digits.all Text.isDecimal = true

def digitValue (c : Char) : Nat := (Text.decimalValue? c).getD 0

def Numeral.value (n : Numeral) : Nat := Nat.ofDigits 10 (n.digits.reverse.map digitValue)

structure HexWord where
  letters : Text
  letters_ne_nil : letters ≠ []
  all_isWord : letters.all Text.isWord = true

def HexWord.text (w : HexWord) : Text := "0x".toList ++ w.letters

def dashes (n : Nat) : Text := List.replicate (n + 1) '-'

/-- A block as it is written, without the empty line that may close it. No number in it has more
digits than can be read. -/
structure Entry where
  left : Nat
  number : Numeral
  address : HexWord
  bytes : Numeral
  right : Nat
  headRest : Text
  indent : Text
  hash : HexWord
  count : Numeral
  hashRest : Text
  stack : List Text
  bytes_short : bytes.digits.length ≤ maxDigits
  count_short : count.digits.length ≤ maxDigits
  headRest_start : headRest.head?.any (· == '-') = false
  indent_blank : indent.all Text.isBlank = true
  hashRest_start : hashRest.head?.any Text.isDecimal = false
  stack_filled : stack.contains ['\n'] = false

namespace Entry

variable (e : Entry)

def head : Text :=
  dashes e.left ++ (" Block ".toList ++ (e.number.digits ++ (" at ".toList ++ (e.address.text ++
    (": ".toList ++ (e.bytes.digits ++ (" bytes ".toList ++ (dashes e.right ++ e.headRest))))))))

def hashLine : Text :=
  e.indent ++ ("Leak Hash: ".toList ++ (e.hash.text ++ (" Count: ".toList ++
    (e.count.digits ++ e.hashRest))))

def lines : List Text := e.head :: e.hashLine :: e.stack

def block : Block := ⟨e.hash.text, e.bytes.value, e.count.value, e.lines.flatten⟩

end Entry

theorem numberOf_eq_value (n : Numeral) : numberOf n.digits = n.value := by
  have h : ∀ (w : Text) (k : Nat), w.foldl (fun n c => n * 10 + digitValue c) k =
      Nat.ofDigits 10 (w.reverse.map digitValue) + k * 10 ^ w.length := by
    intro w
    induction w with
    | nil => intro k; simp
    | cons c w ih =>
      intro k
      rw [List.foldl_cons, ih, List.reverse_cons, List.map_append, Nat.ofDigits_append]
      simp only [List.length_map, List.length_reverse, List.map_cons, List.map_nil,
        Nat.ofDigits_singleton, List.length_cons, pow_succ]
      ring
  have hzero := h n.digits 0
  rw [Nat.zero_mul, Nat.add_zero] at hzero
  exact hzero

theorem readNumber_digits (n : Numeral) (h : n.digits.length ≤ maxDigits) :
    readNumber n.digits = .ok n.value := by
  rw [readNumber, if_pos h, numberOf_eq_value]

theorem walk_digits {s v : Text} {x y : Place} {k : Place → Option Place} (n : Numeral)
    (hx : x.rest = n.digits ++ v) (hv : v.head?.any Text.isDecimal = false)
    (hk : k ⟨x.pos + n.digits.length, v, x.groups⟩ = some y) :
    Shape.number.walk s x k = some y := by
  have hdigits : ∀ b ∈ n.digits, CharClass.decimal.has b = true :=
    List.all_eq_true.mp n.all_isDecimal
  apply walk_whole_run hx hdigits (List.length_pos_iff.mpr n.digits_ne_nil) _ hk
  intro b hb
  rw [Option.mem_def.mp hb] at hv
  exact hv

theorem walk_letters {s v : Text} {x y : Place} {k : Place → Option Place} (w : HexWord)
    (hx : x.rest = w.text ++ v) (hv : v.head?.any (CharClass.either .decimal .word).has = false)
    (hk : k ⟨x.pos + w.text.length, v, x.groups⟩ = some y) :
    Shape.hexWord.walk s x k = some y := by
  have hletters : ∀ b ∈ w.letters, (CharClass.either .decimal .word).has b = true := by
    intro b hb
    simp only [CharClass.has, List.all_eq_true.mp w.all_isWord b hb, Bool.or_true]
  rw [HexWord.text, List.append_assoc] at hx
  rw [HexWord.text, List.length_append, ← Nat.add_assoc] at hk
  rw [Shape.hexWord, walk_cat, walk_lit hx]
  apply walk_whole_run rfl hletters (List.length_pos_iff.mpr w.letters_ne_nil) _ hk
  intro b hb
  rw [Option.mem_def.mp hb] at hv
  exact hv

theorem walk_dashes {s v : Text} {x y : Place} {k : Place → Option Place} (n : Nat)
    (hx : x.rest = dashes n ++ v) (hv : v.head?.any (· == '-') = false)
    (hk : k ⟨x.pos + (dashes n).length, v, x.groups⟩ = some y) :
    (many1 (.among ['-'])).walk s x k = some y := by
  apply walk_whole_run hx _ _ _ hk
  · intro b hb
    rw [List.eq_of_mem_replicate hb]
    rfl
  · rw [dashes, List.length_replicate]
    exact Nat.le_add_left 1 n
  · intro b hb
    rw [Option.mem_def.mp hb] at hv
    simpa [CharClass.has] using hv

namespace Entry

variable (e : Entry)

def headLead : Text :=
  dashes e.left ++ (" Block ".toList ++ (e.number.digits ++ (" at ".toList ++
    (e.address.text ++ ": ".toList))))

theorem drop_headLead : e.head.drop e.headLead.length =
    e.bytes.digits ++ (" bytes ".toList ++ (dashes e.right ++ e.headRest)) := by
  have hlead : e.head = e.headLead ++ (e.bytes.digits ++ (" bytes ".toList ++
      (dashes e.right ++ e.headRest))) := by
    simp only [head, headLead, List.append_assoc]
  rw [hlead, List.drop_left]

theorem walk_blockHead : ∃ y, Shape.blockHead.walk e.head (placeAt e.head 0) some = some y ∧
    y.groups.lookup "bytes" =
      some (e.headLead.length, e.headLead.length + e.bytes.digits.length) := by
  have hlength : e.headLead.length = 0 + (dashes e.left).length + " Block ".toList.length +
      e.number.digits.length + " at ".toList.length + e.address.text.length +
      ": ".toList.length := by
    simp only [headLead, List.length_append]
    omega
  rw [hlength]
  refine ⟨?place, ?walk, ?bytes⟩
  case walk =>
    simp only [Shape.blockHead, walk_cat, walk_group]
    apply walk_dashes e.left rfl rfl
    rw [walk_lit rfl]
    apply walk_digits e.number rfl rfl
    rw [walk_lit rfl]
    apply walk_letters e.address rfl rfl
    rw [walk_lit rfl]
    apply walk_digits e.bytes rfl rfl
    rw [walk_lit rfl]
    apply walk_dashes e.right rfl e.headRest_start
    rfl
  case bytes => rfl

theorem headBytes?_head : headBytes? e.head = some (.ok e.bytes.value) := by
  obtain ⟨y, hwalk, hgroup⟩ := e.walk_blockHead
  have hmatch := matchAt_of_walk (a := 0) (Nat.zero_le _) hwalk
  have hbytes := Shape.groupText?_of_lookup (m := ⟨0, y.pos, y.groups⟩) hgroup e.drop_headLead rfl
  rw [Nat.cast_zero] at hmatch
  simp only [headBytes?, hmatch, hbytes, Option.bind_eq_bind, Option.bind_some,
    readNumber_digits _ e.bytes_short]
  rfl

def hashLead : Text := e.indent ++ "Leak Hash: ".toList

theorem drop_hashLead : e.hashLine.drop e.hashLead.length =
    e.hash.text ++ (" Count: ".toList ++ (e.count.digits ++ e.hashRest)) := by
  have hlead : e.hashLine = e.hashLead ++
      (e.hash.text ++ (" Count: ".toList ++ (e.count.digits ++ e.hashRest))) := by
    simp only [hashLine, hashLead, List.append_assoc]
  rw [hlead, List.drop_left]

theorem walk_leakHash : ∃ y, Shape.leakHash.walk e.hashLine (placeAt e.hashLine 0) some = some y ∧
    y.groups.lookup "hash" = some (e.hashLead.length, e.hashLead.length + e.hash.text.length) ∧
    y.groups.lookup "count" =
      some (e.hashLead.length + e.hash.text.length + " Count: ".toList.length,
        e.hashLead.length + e.hash.text.length + " Count: ".toList.length +
          e.count.digits.length) := by
  have hindent : ∀ b ∈ e.indent, CharClass.blank.has b = true :=
    List.all_eq_true.mp e.indent_blank
  have hlength : e.hashLead.length = 0 + e.indent.length + "Leak Hash: ".toList.length := by
    simp [hashLead]
  rw [hlength]
  refine ⟨?place, ?walk, ?hash, ?count⟩
  case walk =>
    simp only [Shape.leakHash, walk_cat, walk_group]
    apply walk_whole_run rfl hindent (Nat.zero_le _) (by simp; rfl)
    rw [walk_lit rfl]
    apply walk_letters e.hash rfl rfl
    rw [walk_lit rfl]
    apply walk_digits e.count rfl e.hashRest_start
    rfl
  case hash => rfl
  case count => rfl

theorem hashAndCount?_hashLine :
    hashAndCount? e.hashLine = some (e.hash.text, .ok e.count.value) := by
  obtain ⟨y, hwalk, hhash, hcount⟩ := e.walk_leakHash
  have hmatch := matchAt_of_walk (a := 0) (Nat.zero_le _) hwalk
  have hdrop := e.drop_hashLead
  have hdigits := Text.drop_of_drop_append (Text.drop_of_drop_append hdrop)
  have hhash := Shape.groupText?_of_lookup (m := ⟨0, y.pos, y.groups⟩) hhash hdrop rfl
  have hcount := Shape.groupText?_of_lookup (m := ⟨0, y.pos, y.groups⟩) hcount hdigits rfl
  rw [Nat.cast_zero] at hmatch
  simp only [hashAndCount?, hmatch, hhash, hcount, Option.bind_eq_bind, Option.bind_some,
    readNumber_digits _ e.count_short]
  rfl

end Entry

section BlocksFrom

variable {final : Option Failure}

theorem blocksFrom_filled {lines : List Text} (block : Block) (rest : List Text)
    (hlines : lines.contains ['\n'] = false) :
    blocksFrom final (.inside block) (lines ++ rest) =
      blocksFrom final (.inside { block with message := block.message ++ lines.flatten }) rest := by
  induction lines generalizing block with
  | nil => simp
  | cons line lines ih =>
    rw [List.contains_cons, Bool.or_eq_false_iff] at hlines
    have hline : (line == ['\n']) = false := by
      rw [BEq.comm]
      exact hlines.1
    rw [List.cons_append, blocksFrom, if_neg (ne_true_of_eq_false hline), ih _ hlines.2]
    simp

theorem blocksFrom_entry (e : Entry) (rest : List Text) :
    blocksFrom final .outside (e.lines ++ rest) = blocksFrom final (.inside e.block) rest := by
  have hmessage : e.head ++ e.hashLine ++ e.stack.flatten = e.lines.flatten := by
    simp [Entry.lines]
  rw [Entry.lines, List.cons_append, List.cons_append, blocksFrom, e.headBytes?_head]
  simp only [blocksFrom, e.hashAndCount?_hashLine]
  rw [blocksFrom_filled _ _ e.stack_filled, hmessage]
  rfl

end BlocksFrom

inductive Item where
  | noise (line : Text) (h : Shape.blockHead.matchAt line 0 = none)
  | block (entry : Entry)

namespace Item

def lines : Item → List Text
  | noise line _ => [line]
  | block e => e.lines ++ [['\n']]

def blocks : Item → List Block
  | noise _ _ => []
  | block e => [e.block]

end Item

theorem blocksFrom_items {final : Option Failure} (items : List Item) (rest : List Text) :
    blocksFrom final .outside (items.flatMap Item.lines ++ rest) =
      (items.flatMap Item.blocks ++ (blocksFrom final .outside rest).1,
        (blocksFrom final .outside rest).2) := by
  induction items with
  | nil => rfl
  | cons item items ih =>
    rw [List.flatMap_cons, List.flatMap_cons, List.append_assoc, List.append_assoc]
    cases item with
    | noise line h =>
      have hline : headBytes? line = none := by rw [headBytes?, h]; rfl
      rw [Item.lines, List.singleton_append, blocksFrom, hline, ih]
      rfl
    | block e =>
      rw [Item.lines, List.append_assoc, blocksFrom_entry, List.singleton_append, blocksFrom,
        if_pos BEq.rfl, ih]
      rfl

structure Report where
  items : List Item
  last : Option Entry

namespace Report

variable (x : Report)

def lines : List Text := x.items.flatMap Item.lines ++ x.last.elim [] Entry.lines

def blocks : List Block := x.items.flatMap Item.blocks ++ (x.last.map Entry.block).toList

theorem blocksFrom_lines : blocksFrom none .outside x.lines = (x.blocks, none) := by
  have hlast : blocksFrom none .outside (x.last.elim [] Entry.lines) =
      ((x.last.map Entry.block).toList, none) := by
    cases x.last with
    | none => rfl
    | some e =>
      rw [Option.elim_some, ← List.append_nil e.lines, blocksFrom_entry]
      rfl
  rw [lines, blocksFrom_items, hlast]
  rfl

theorem readReport_lines {bytes : ByteArray} (h : Content.lines bytes = (x.lines, true)) :
    readReport (.ok bytes) = (x.blocks, none) := by
  rw [readReport, h]
  exact x.blocksFrom_lines

theorem profile_lines {bytes : ByteArray} (known : List Block) (most : Int)
    (h : Content.lines bytes = (x.lines, true)) :
    profile known (.ok bytes) most =
      ⟨(printLines (profileLines most (known ++ x.blocks))).1, known ++ x.blocks,
        (printLines (profileLines most (known ++ x.blocks))).2⟩ := by
  rw [profile, x.readReport_lines h]

theorem profile_reads_report (known : List Block) (most : Int) (bytes : ByteArray)
    (h : Content.lines bytes = (x.lines, true)) :
    readReport (.ok bytes) = (x.blocks, none) ∧
      (profile known (.ok bytes) most).blocks = known ++ x.blocks := by
  constructor
  · exact x.readReport_lines h
  · rw [x.profile_lines known most h]

end Report

def oneEntry : Entry where
  left := 0
  number := ⟨"1".toList, by decide, by decide⟩
  address := ⟨"1".toList, by decide, by decide⟩
  bytes := ⟨"2".toList, by decide, by decide⟩
  right := 0
  headRest := "\n".toList
  indent := []
  hash := ⟨"A".toList, by decide, by decide⟩
  count := ⟨"3".toList, by decide, by decide⟩
  hashRest := "\n".toList
  stack := []
  bytes_short := by decide
  count_short := by decide
  headRest_start := by decide
  indent_blank := by decide
  hashRest_start := by decide
  stack_filled := by decide

def twoBlocks : Report where
  items := [
    .noise "noise\n".toList (by decide +kernel),
    .block {
      left := 1
      number := ⟨"12".toList, by decide, by decide⟩
      address := ⟨"0A".toList, by decide, by decide⟩
      bytes := ⟨"٤0".toList, by decide, by decide⟩
      right := 1
      headRest := "\n".toList
      indent := "  ".toList
      hash := ⟨"E4".toList, by decide, by decide⟩
      count := ⟨"07".toList, by decide, by decide⟩
      hashRest := ", x\n".toList
      stack := ["f()\n".toList, "- Block 1 at 0x1: 2 bytes -\n".toList]
      bytes_short := by decide
      count_short := by decide
      headRest_start := by decide
      indent_blank := by decide
      hashRest_start := by decide
      stack_filled := by decide }]
  last := some oneEntry

def twoBlocksFile : ByteArray :=
  ("noise\r\n" ++ "-- Block 12 at 0x0A: ٤0 bytes --\r\n" ++ "  Leak Hash: 0xE4 Count: 07, x\r\n" ++
    "f()\r\n" ++ "- Block 1 at 0x1: 2 bytes -\r\n" ++ "\r\n" ++ "- Block 1 at 0x1: 2 bytes -\n" ++
    "Leak Hash: 0xA Count: 3\n").toUTF8

theorem profile_reads_twoBlocks :
    Content.lines twoBlocksFile = (twoBlocks.lines, true) ∧
    readReport (.ok twoBlocksFile) = (twoBlocks.blocks, none) ∧
    twoBlocks.blocks.map (fun b => (b.hash, b.bytes, b.count)) =
      [("0xE4".toList, 40, 7), ("0xA".toList, 2, 3)] := by
  have h : Content.lines twoBlocksFile = (twoBlocks.lines, true) := by decide +kernel
  exact ⟨h, (twoBlocks.profile_reads_report [] 1 twoBlocksFile h).1, by decide +kernel⟩

end CodeAudit.Leak
