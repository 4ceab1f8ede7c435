import CodeAudit.Proofs.Leak.History

namespace CodeAudit.Leak

variable {key : Block → Nat} {blocks : List Block}

def Ahead (key : Block → Nat) (x y : Block × Nat) : Prop :=
  key y.1 < key x.1 ∨ key y.1 = key x.1 ∧ y.2 < x.2

/-- The `n` blocks that are ahead of all others, in this order and with their places. -/
structure IsTop (key : Block → Nat) (blocks : List Block) (n : Nat) (top : List (Block × Nat)) :
    Prop where
  length_eq : top.length = min n blocks.length
  is_read : ∀ x ∈ top, blocks[x.2]? = some x.1
  nodup : (top.map Prod.snd).Nodup
  ordered : top.Pairwise (Ahead key)
  largest : ∀ x ∈ top, ∀ i b, blocks[i]? = some b → (b, i) ∉ top → Ahead key x (b, i)

def ranked (key : Block → Nat) (blocks : List Block) : List (Block × Nat) :=
  (blocks.zipIdx.mergeSort (List.zipIdxLE fun a b => key a ≤ key b)).reverse

theorem map_fst_ranked : (ranked key blocks).map Prod.fst =
    (blocks.mergeSort fun a b => key a ≤ key b).reverse := by
  rw [ranked, List.map_reverse]
  exact congrArg List.reverse List.mergeSort_zipIdx

theorem ranked_perm : (ranked key blocks).Perm blocks.zipIdx :=
  (List.reverse_perm _).trans (List.mergeSort_perm _ _)

theorem mem_ranked {x : Block × Nat} : x ∈ ranked key blocks ↔ blocks[x.2]? = some x.1 := by
  rw [ranked_perm.mem_iff, List.mem_zipIdx_iff_getElem?]

theorem length_ranked : (ranked key blocks).length = blocks.length := by
  rw [ranked_perm.length_eq, List.length_zipIdx]

theorem nodup_ranked : ((ranked key blocks).map Prod.snd).Nodup := by
  rw [(ranked_perm.map Prod.snd).nodup_iff, List.zipIdx_map_snd]
  exact List.nodup_range'

theorem pairwise_ranked : (ranked key blocks).Pairwise (Ahead key) := by
  have hsorted : (ranked key blocks).Pairwise fun x y =>
      List.zipIdxLE (fun a b => key a ≤ key b) y x = true := by
    rw [ranked, List.pairwise_reverse]
    apply List.pairwise_mergeSort
    · apply List.zipIdxLE_trans
      simp only [decide_eq_true_eq]
      exact fun a b c => Nat.le_trans
    · apply List.zipIdxLE_total
      intro a b
      rw [Bool.or_eq_true, decide_eq_true_eq, decide_eq_true_eq]
      exact Nat.le_total _ _
  have hplaces : (ranked key blocks).Pairwise fun x y => x.2 ≠ y.2 :=
    List.pairwise_map.mp nodup_ranked
  refine (hsorted.and hplaces).imp ?_
  rintro x y ⟨hle, hne⟩
  simp only [List.zipIdxLE, decide_eq_true_eq] at hle
  rw [Ahead]
  split at hle
  · split at hle
    · rw [decide_eq_true_eq] at hle
      omega
    · omega
  · cases hle

theorem isTop_take (n : Nat) : IsTop key blocks n ((ranked key blocks).take n) where
  length_eq := by rw [List.length_take, length_ranked]
  is_read x hx := mem_ranked.mp (List.mem_of_mem_take hx)
  nodup := by
    rw [List.map_take]
    exact nodup_ranked.sublist (List.take_sublist _ _)
  ordered := pairwise_ranked.sublist (List.take_sublist _ _)
  largest := by
    intro x hx i b hi hout
    have hmem : (b, i) ∈ (ranked key blocks).take n ++ (ranked key blocks).drop n := by
      rw [List.take_append_drop]
      exact mem_ranked.mpr hi
    have hpair : (ranked key blocks).Pairwise (Ahead key) := pairwise_ranked
    rw [← List.take_append_drop n (ranked key blocks), List.pairwise_append] at hpair
    exact hpair.2.2 x hx (b, i) ((List.mem_append.mp hmem).resolve_left hout)

theorem lastBefore_eq {α : Type} {k : Nat} (hk : 1 ≤ k) (xs : List α) :
    lastBefore k xs = xs.reverse.take (k - 1) := by
  rw [lastBefore, List.take_eq_take_iff, List.length_reverse]
  split <;> omega

theorem exists_isTop {k : Nat} (hk : 1 ≤ k) (key : Block → Nat) (blocks : List Block) :
    ∃ top, IsTop key blocks (k - 1) top ∧
      lastBefore k (blocks.mergeSort fun a b => key a ≤ key b) = top.map Prod.fst := by
  refine ⟨(ranked key blocks).take (k - 1), isTop_take (k - 1), ?_⟩
  rw [lastBefore_eq hk, List.map_take, map_fst_ranked]

theorem totalOf_eq (blocks : List Block) :
    totalOf blocks = blocks.foldl (fun size b => size + b.bytes * b.count) 0 := by
  have h : ∀ size, blocks.foldl (fun size b => size + b.bytes * b.count) size =
      size + totalOf blocks := by
    induction blocks with
    | nil => exact fun _ => rfl
    | cons b blocks ih =>
      intro size
      rw [List.foldl_cons, ih, Nat.add_assoc]
      rfl
  rw [h, Nat.zero_add]

def sectionLines (most : Int) (memory count : List Block) (top all : Nat) : List (Scan Text) :=
  .ok "-------------------------TOP MEMORY------------------------------".toList ::
  memory.flatMap blockLines ++
  (do return "top ".toList ++ (← writeNumber most) ++ " size --> ".toList ++ (← megabytes top) ++
      " M".toList) ::
  (do return "all size --> ".toList ++ (← megabytes all) ++ " M".toList) ::
  .ok "------------------------TOP COUNT------------------------------------".toList ::
  count.flatMap blockLines

theorem profileLines_eq (most : Int) (blocks : List Block) : profileLines most blocks =
    sectionLines most (topMemory most blocks) (topCount most blocks)
      (totalOf (topMemory most blocks)) (totalOf blocks) := by
  rw [profileLines, sectionLines]
  simp only [List.cons_append, List.nil_append, List.append_assoc]

theorem profile_of_read {known : List Block} {content : Except ReadFailure ByteArray}
    (hread : (readReport content).2 = none) (most : Int) :
    ((profile known content most).out, (profile known content most).failure) =
      printLines (profileLines most (known ++ (readReport content).1)) := by
  rw [profile]
  generalize readReport content = read at hread ⊢
  obtain ⟨new, failure⟩ := read
  cases hread
  rfl

theorem profile_lists_largest (known : List Block) (content : Except ReadFailure ByteArray) (k : Nat)
    (hk : 1 ≤ k) (hread : (readReport content).2 = none) :
    let blocks := known ++ (readReport content).1
    let shown := profile known content k
    ∃ memory count : List (Block × Nat),
      IsTop Block.total blocks (k - 1) memory ∧ IsTop Block.count blocks (k - 1) count ∧
      (shown.out, shown.failure) = printLines (sectionLines k (memory.map Prod.fst)
        (count.map Prod.fst) ((memory.map Prod.fst).foldl (fun size b => size + b.bytes * b.count) 0)
        (blocks.foldl (fun size b => size + b.bytes * b.count) 0)) ∧
      (memory.length = min k blocks.length ↔ blocks.length < k) ∧
      (count.length = min k blocks.length ↔ blocks.length < k) := by
  intro blocks shown
  obtain ⟨memory, hmemory, hlisted⟩ := exists_isTop hk Block.total blocks
  obtain ⟨count, hcount, hcounted⟩ := exists_isTop hk Block.count blocks
  have hlines : profileLines k blocks = sectionLines k (memory.map Prod.fst) (count.map Prod.fst)
      (totalOf (memory.map Prod.fst)) (totalOf blocks) := by
    rw [profileLines_eq, topMemory, byTotal, hlisted, topCount, byCount, hcounted]
  refine ⟨memory, count, hmemory, hcount, ?_, ?_, ?_⟩
  · rw [← totalOf_eq, ← totalOf_eq, ← hlines]
    exact profile_of_read hread k
  · rw [hmemory.length_eq]
    omega
  · rw [hcount.length_eq]
    omega

theorem profile_lists_later_of_two :
    let earlier : Block := ⟨"0xB".toList, 3, 2, []⟩
    1 ≤ 2 ∧ (readReport (.ok oneBlockFile)).2 = none ∧
      ∃ memory, IsTop Block.total (earlier :: oneBlock.blocks) 1 memory ∧
        memory = [(oneEntry.block, 1)] := by
  intro earlier
  have hread : readReport (.ok oneBlockFile) = (oneBlock.blocks, none) :=
    oneBlock.readReport_lines lines_oneBlockFile
  have hnone : (readReport (.ok oneBlockFile)).2 = none := by rw [hread]
  obtain ⟨memory, -, hmemory, -⟩ :=
    profile_lists_largest [earlier] (.ok oneBlockFile) 2 (by decide) hnone
  rw [hread, List.singleton_append] at hmemory
  refine ⟨by decide, hnone, memory, hmemory, ?_⟩
  obtain ⟨⟨b, i⟩, rfl⟩ := List.length_eq_one_iff.mp hmemory.length_eq
  have hi : (earlier :: oneBlock.blocks)[i]? = some b := hmemory.is_read (b, i) (by simp)
  match i, hi with
  | 0, hi =>
    obtain rfl := Option.some.inj hi
    have hahead := hmemory.largest (earlier, 0) (by simp) 1 oneEntry.block rfl (by simp)
    exact absurd hahead (by rw [Ahead]; decide)
  | 1, hi => rw [← Option.some.inj hi]
  | i + 2, hi => cases hi

theorem profile_of_one_lists_nothing :
    topMemory 1 oneBlock.blocks = [] ∧ topCount 1 oneBlock.blocks = [] ∧
      min 1 oneBlock.blocks.length = 1 ∧
      (profile [] (.ok oneBlockFile) 1).out = (printLines (sectionLines 1 [] [] 0 6)).1 := by
  have hmemory : topMemory 1 oneBlock.blocks = [] := lastBefore_eq (k := 1) le_rfl _
  have hcount : topCount 1 oneBlock.blocks = [] := lastBefore_eq (k := 1) le_rfl _
  have hall : totalOf oneBlock.blocks = 6 := by decide
  refine ⟨hmemory, hcount, rfl, ?_⟩
  rw [oneBlock.profile_lines [] 1 lines_oneBlockFile, List.nil_append, profileLines_eq, hmemory,
    hcount, hall, totalOf, List.foldr_nil]

end CodeAudit.Leak
