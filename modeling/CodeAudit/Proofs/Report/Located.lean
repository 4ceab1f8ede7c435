import CodeAudit.Body
import CodeAudit.Proofs.Shape.Declared

/-!
Where the lines of reports come from. A report quotes a piece of the text, and its line is that of
the quoted piece or, for a name, that of the keyword before the name.
-/

namespace CodeAudit

namespace Rule

def isNaming : Rule → Bool
  | macroLead | macroCapitals | classLead | classCapital => true
  | _ => false

def isLocal : Rule → Bool
  | localLead | farMark | rawPointer | rawArray | stdContainer _ | plainCast | rawMemory => true
  | _ => false

end Rule

namespace Report

variable {s : Text} {r : Report}

def Quotes (s : Text) (q : Nat) (r : Report) : Prop :=
  ∀ t, r.context = some t → t <+: s.drop q

def Exact (s : Text) (r : Report) : Prop :=
  ∀ t, r.context = some t → ∃ q : Nat, t <+: s.drop q ∧ r.line = s.lineOf q

def nameLeads : List Pattern :=
  [Shape.define ++ Shape.blanks, Shape.classLead]

/-- The report is on a name, and its line is that of the keyword before the name. -/
def Named (s : Text) (r : Report) : Prop :=
  r.rule.isNaming = true ∧ ∃ p ∈ nameLeads, ∃ (a : Nat) (u t : Text),
    p.Reads u ∧ r.context = some t ∧ u ++ t <+: s.drop a ∧ r.line = s.lineOf a

inductive Located (s : Text) (r : Report) : Prop
  | inLine (h : r.Exact s)
  | named (h : r.Named s)

theorem Quotes.exact {q : Nat} (hq : r.Quotes s q) (hl : r.line = s.lineOf q) : r.Exact s :=
  fun t ht => ⟨q, hq t ht, hl⟩

theorem exact_of_context_eq_none (h : r.context = none) : r.Exact s := by
  intro t ht
  rw [h] at ht
  cases ht

end Report

variable {s : Text} {m : Match} {q : Nat}

theorem Text.slice_prefix (s : Text) (q : Nat) (i : Int) : s.slice q i <+: s.drop q := by
  rw [slice, bound_natCast, List.drop_take]
  exact List.take_prefix _ _

theorem Match.text_prefix (s : Text) (m : Match) : m.text s <+: s.drop m.start := by
  rw [Match.text, List.drop_take]
  exact List.take_prefix _ _

theorem Pattern.start_of_matchAt {p : Pattern} (hq : q ≤ s.length) (h : p.matchAt s q = some m) :
    m.start = q := by
  rw [(matchAt_eq_some h).1, Int.toNat_natCast, Nat.min_eq_left hq]

end CodeAudit
