import CodeAudit.Proofs.SourceText.FlatText
import CodeAudit.Proofs.SourceText.Rounds

namespace CodeAudit.SourceText

variable {s u file : Text} {lines earlier rest : List Line} {l : Line} {a n : Nat} {old : Int}
  {r : List Report} {c : Context}

def breakBefore (rest : List Line) : Text := if rest.isEmpty then [] else ['\n']

theorem linesText_cons (l : Line) (rest : List Line) :
    linesText (l :: rest) = l.text ++ (breakBefore rest ++ linesText rest) := by
  cases rest with
  | nil => simp [linesText, breakBefore]
  | cons l' rest => simp [linesText, breakBefore, List.intercalate_cons_cons]

theorem isBlank_of_mem_breakBefore {b : Char} (hb : b ∈ breakBefore rest) :
    Text.isBlank b = true := by
  rw [breakBefore] at hb
  split at hb
  · cases hb
  · rw [List.mem_singleton.mp hb]
    decide

theorem head?_breakBefore : ∀ b ∈ (breakBefore rest ++ linesText rest).head?, b = '\n' := by
  cases rest with
  | nil => simp [breakBefore, linesText]
  | cons l rest => simp [breakBefore]

theorem length_le_linesText (lines : List Line) : lines.length ≤ (linesText lines).length + 1 := by
  induction lines with
  | nil => simp
  | cons l rest ih =>
    rw [linesText_cons, List.length_cons, List.length_append, List.length_append]
    cases rest with
    | nil => simp
    | cons l' rest =>
      have hbreak : (breakBefore (l' :: rest)).length = 1 := rfl
      omega

structure Reached (s file : Text) (earlier rest : List Line) (a : Nat) (u : Text) (c : Context) :
    Prop where
  text : s.drop a = u ++ linesText rest
  blank : ∀ b ∈ u, Text.isBlank b = true
  count : rest ≠ [] → (s.take (a + u.length)).count '\n' = earlier.length
  named : c.file = some file
  ownIncludes : c.ownIncludes = earlier.any (·.endsSystem file)

namespace Reached

theorem drop_line (h : Reached s file earlier (l :: rest) a u c) :
    s.drop (a + u.length) = l.text ++ (breakBefore rest ++ linesText rest) := by
  apply Text.drop_of_drop_append
  rw [h.text, linesText_cons]

theorem drop_rest (h : Reached s file earlier (l :: rest) a u c) :
    s.drop (a + u.length + (l.text ++ breakBefore rest).length) = linesText rest := by
  apply Text.drop_of_drop_append
  rw [h.drop_line, List.append_assoc]

theorem count_rest (h : Reached s file earlier (l :: rest) a u c) (hl : l.WellFormed)
    (hrest : rest ≠ []) :
    (s.take (a + u.length + (l.text ++ breakBefore rest).length)).count '\n' =
      (earlier ++ [l]).length := by
  have hbreak : breakBefore rest = ['\n'] := by simp [breakBefore, hrest]
  rw [Text.count_take_of_drop (r := linesText rest) (by rw [h.drop_line, List.append_assoc]),
    h.count (List.cons_ne_nil _ _), List.count_append, List.count_eq_zero.mpr hl.1, hbreak]
  simp

theorem any_endsSystem (h : Reached s file earlier (l :: rest) a u c) :
    (c.ownIncludes || l.endsSystem file) = (earlier ++ [l]).any (·.endsSystem file) := by
  rw [h.ownIncludes]
  simp

theorem pass_blank {w : Text} (h : Reached s file earlier (.blank w :: rest) a u c)
    (hw : (Line.blank w).WellFormed) :
    Reached s file (earlier ++ [.blank w]) rest a (u ++ (w ++ breakBefore rest)) c where
  text := by rw [h.text, linesText_cons, List.append_assoc, List.append_assoc]; rfl
  blank := by
    intro b hb
    rcases List.mem_append.mp hb with hb | hb
    · exact h.blank b hb
    rcases List.mem_append.mp hb with hb | hb
    · exact List.all_eq_true.mp hw.2 b hb
    · exact isBlank_of_mem_breakBefore hb
  count hrest := by
    rw [List.length_append, ← Nat.add_assoc]
    exact h.count_rest hw hrest
  named := h.named
  ownIncludes := by
    rw [← h.any_endsSystem]
    exact (Bool.or_false _).symm

theorem pass_found (h : Reached s file earlier (l :: rest) a u c) (hl : l.WellFormed) {stop : Nat}
    (hstop : stop + 1 = a + u.length + l.text.length ∨ stop = a + u.length + l.text.length)
    (line : Int) :
    ∃ u', Reached s file (earlier ++ [l]) rest (stop + 1) u'
      { c with line, ownIncludes := c.ownIncludes || l.endsSystem file } := by
  have hrest := h.drop_rest
  have hcount := h.count_rest hl
  rw [List.length_append, ← Nat.add_assoc] at hrest hcount
  rcases hstop with hstop | rfl
  · refine ⟨breakBefore rest, ?_, fun b hb => isBlank_of_mem_breakBefore hb, ?_, h.named,
      h.any_endsSystem⟩
    · rw [hstop]
      exact Text.drop_of_drop_append h.drop_line
    · rwa [hstop]
  · cases rest with
    | nil =>
      refine ⟨[], ?_, by simp, by simp, h.named, h.any_endsSystem⟩
      have hend : s.drop (a + u.length + l.text.length) = [] := hrest
      rw [← List.drop_drop, hend]
      rfl
    | cons l' rest => exact ⟨[], hrest, by simp, hcount, h.named, h.any_endsSystem⟩

end Reached

theorem rounds_lines (hlines : ∀ l ∈ rest, l.WellFormed) (hn : rest.length < n) (hold : old < a)
    (h : Reached s file earlier rest a u c) :
    (rounds (round s) n ⟨old, a, r⟩ c).1 = .ok (r ++ linesReports file earlier rest) := by
  induction rest generalizing n old a u r c earlier with
  | nil =>
    obtain ⟨n, rfl⟩ := Nat.exists_eq_succ_of_ne_zero (Nat.ne_of_gt hn)
    have hblank : ∀ b ∈ s.drop a, Text.isBlank b = true := by
      intro b hb
      rw [h.text] at hb
      exact h.blank b (by simpa [linesText] using hb)
    rw [rounds_of_blank hblank, linesReports, List.append_nil]
  | cons l rest ih =>
    have hl : l.WellFormed := hlines l List.mem_cons_self
    have hrest : ∀ l ∈ rest, l.WellFormed := fun l' hl' => hlines l' (List.mem_cons_of_mem _ hl')
    rw [List.length_cons] at hn
    by_cases hblank : ∃ w, l = .blank w
    · obtain ⟨w, rfl⟩ := hblank
      rw [linesReports, Line.reports, List.nil_append]
      exact ih hrest (by omega) hold (h.pass_blank hl)
    · have hink : ∀ w, l ≠ .blank w := fun w hw => hblank ⟨w, hw⟩
      obtain ⟨n, rfl⟩ := Nat.exists_eq_succ_of_ne_zero (Nat.ne_of_gt (Nat.zero_lt_of_lt hn))
      obtain ⟨d, w, hd, hdink⟩ := hl.exists_head_text hink
      obtain ⟨stop, hstop, hfirst⟩ := hl.isFound hink s _ (a + u.length)
        { c with line := s.lineOf (a + u.length : Nat) } h.drop_line head?_breakBefore h.named
      have hs : s.drop a = u ++ d :: (w ++ (breakBefore rest ++ linesText rest)) := by
        rw [h.text, linesText_cons, hd]
        rfl
      have hline : s.lineOf (a + u.length : Nat) = (earlier.length + 1 : Nat) := by
        rw [Text.lineOf_natCast, h.count (List.cons_ne_nil _ _)]
      have hon : ((a + u.length : Nat) : Int) < (stop + 1 : Nat) := by
        have hlength : l.text.length = w.length + 1 := by rw [hd, List.length_cons]
        omega
      obtain ⟨u', h'⟩ := h.pass_found hl hstop (s.lineOf (a + u.length : Nat))
      rw [rounds_of_found hs h.blank hdink hold hfirst, linesReports, ← List.append_assoc, ← hline,
        ← h.ownIncludes]
      exact ih hrest (by omega) hon h'

theorem check_flatText (x : FlatText) (file : Text) (c : Context) :
    (check x.text 0 { c with file := some file, ownIncludes := false }).1 =
      .ok (x.reports file) := by
  have hreached : Reached x.text file [] x.lines 0 []
      { c with file := some file, ownIncludes := false } :=
    ⟨rfl, by simp, fun _ => rfl, rfl, rfl⟩
  have hlength : x.lines.length ≤ x.text.length + 1 := length_le_linesText x.lines
  exact rounds_lines x.wellFormed (by omega) (by omega) hreached

def mixedLines : FlatText where
  lines := [
    .define "CIT_Max".toList (some "(1 +\\ 2)".toList),
    .ownInclude "src.d/MAIN.h".toList,
    .systemInclude "map".toList,
    .blank " \t".toList,
    .ownInclude "box.h".toList,
    .conditional "#ifx".toList,
    .systemInclude "a b".toList,
    .global true "static_t".toList "count".toList,
    .classForward "class".toList,
    .usingNamespace "std".toList,
    .global false "struct".toList "g_".toList,
    .blank []]
  wellFormed := by decide

theorem check_mixedLines :
    mixedLines.text = ("#define CIT_Max (1 +\\ 2)\n#include \"src.d/MAIN.h\"\n#include <map>\n \t\n" ++
      "#include \"box.h\"\n#ifx\n#include <a b>\nstatic static_t count;\nclass class;\n" ++
      "using namespace std;\nstruct g_;\n").toList ∧
    (check mixedLines.text 0 { file := some "src.d/Main.cpp".toList }).1 = .ok [
      ⟨1, .macroCapitals, some "CIT_Max".toList, none⟩,
      ⟨7, .includeOrder, some "#include <a b>".toList, none⟩,
      ⟨8, .staticLead, some "static static_t count".toList, none⟩,
      ⟨11, .shortName, some "struct g_".toList, none⟩] := by
  constructor
  · decide +kernel
  · refine (check_flatText mixedLines "src.d/Main.cpp".toList {}).trans ?_
    apply congrArg Except.ok
    decide +kernel

end CodeAudit.SourceText
