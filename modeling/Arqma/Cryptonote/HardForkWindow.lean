import Arqma.Cryptonote.HardFork
import Arqma.Lib.FoldInv

/-!
# The vote window of `HardFork`

The window `versions` and its counters `last_versions` are rebuilt or shifted by every
operation of `HardFork`. This module runs the object against a chain database that
the rest of the node changes between the calls (blocks stored, popped, or the whole
database reset), and proves what stays true of the window over every such run.

## The model

A run starts from an object as `HardFork::HardFork` and `add_fork` leave it (an empty
window, a table that `add_fork` accepted) and an empty database. A step is either a
change of the database or one of the operations `init`, `add`,
`reorganize_from_block_height`, `rescan_from_block_height` and `on_block_popped`.
`rescan_from_block_height` is private: `init` is its only caller, and passes it the
first height of the window.

## What is proved

* `WindowInv`: the window holds at most `window_size` votes, the counters count them
  modulo `2 ^ 32`, every vote is at most the last fork's version, and every version
  recorded in the database is one of the table. Each public operation keeps it
  (`WindowInv.add`, `WindowInv.init`, `WindowInv.reorganizeFromBlockHeight`,
  `WindowInv.onBlockPopped`), and so does every change of the database.
* `hardFork_window_invariant`: over every run of the public operations, the window
  holds at most `window_size` votes, each counter is the number of its votes modulo
  `2 ^ 32` (the number itself while `window_size < 2 ^ 32`), every vote is at most
  the last fork's version, and `add` never lowers the current fork index.
* `rescanFromBlockHeight_overfills_window`: called below the first height of the
  window, `rescan_from_block_height` fills it past `window_size`.
-/

namespace Arqma.Cryptonote

namespace HardFork

/-! ### Runs -/

/-- The operations of `HardFork` a run calls. -/
inductive Op where
  | init
  | add (block : BlockHeader) (height : ℕ)
  | reorganizeFromBlockHeight (height : ℕ)
  | rescanFromBlockHeight (height : ℕ)
  | onBlockPopped (nblocks : ℕ)

/-- One call; `none` where the call throws, or returns `false` without a change. -/
def Op.run : Op → BlockchainDb → HardFork → Option (HardFork × BlockchainDb)
  | .init, db, hf => (hf.init db).map (·, db)
  | .add block height, db, hf => hf.addBlock block height db
  | .reorganizeFromBlockHeight height, db, hf => (hf.reorganizeFromBlockHeight height db).map Prod.snd
  | .rescanFromBlockHeight height, db, hf => (hf.rescanFromBlockHeight height db).map fun r => (r.2, db)
  | .onBlockPopped nblocks, db, hf => (hf.onBlockPopped nblocks db).map (·, db)

/-- The operations callable from outside the class: all but the private
`rescan_from_block_height`. -/
def Op.IsPublic : Op → Prop
  | .rescanFromBlockHeight _ => False
  | _ => True

/-- One step of a run: the node changes the database, or calls an operation that
`allowed` admits. -/
inductive Step (allowed : Op → Prop) : HardFork × BlockchainDb → HardFork × BlockchainDb → Prop
  | pushBlock (hf : HardFork) (db : BlockchainDb) (b : BlockHeader) : Step allowed (hf, db) (hf, db.pushBlock b)
  | popBlock (hf : HardFork) (db : BlockchainDb) : Step allowed (hf, db) (hf, db.popBlock)
  | reset (hf : HardFork) (db : BlockchainDb) : Step allowed (hf, db) (hf, BlockchainDb.empty)
  | call (o : Op) {hf hf' : HardFork} {db db' : BlockchainDb} :
      allowed o → o.run db hf = some (hf', db') → Step allowed (hf, db) (hf', db')

/-- The states of the runs from `start`. -/
inductive Reachable (allowed : Op → Prop) (start : HardFork × BlockchainDb) :
    HardFork × BlockchainDb → Prop
  | start : Reachable allowed start start
  | step {s s' : HardFork × BlockchainDb} : Reachable allowed start s → Step allowed s s' →
      Reachable allowed start s'

/-! ### The invariant -/

/-- An object with an empty window, as the constructor leaves it. -/
def Fresh (hf : HardFork) : Prop := hf.versions = [] ∧ ∀ v, hf.lastVersions v = 0

/-- What every run keeps of the window and of the versions recorded in the database. -/
structure WindowInv (hf : HardFork) (db : BlockchainDb) : Prop where
  table : ForkTable hf.heights
  length_le : hf.versions.length ≤ hf.windowSize
  counts : Counter.Counts (2 ^ 32) hf.lastVersions hf.versions
  versions_le : ∀ last ∈ hf.heights.getLast?, ∀ v ∈ hf.versions, v ≤ last.version
  recorded : ∀ height v, db.hfVersions height = some v → ∃ p ∈ hf.heights, p.version = v

/-- In a table that `add_fork` accepts, every fork is at most the last. -/
theorem ForkTable.version_le_last {heights : List HardFork.Params} (h : ForkTable heights)
    {p last : HardFork.Params} (hp : p ∈ heights) (hlast : heights.getLast? = some last) :
    p.version ≤ last.version := by
  obtain ⟨front, rfl⟩ := List.getLast?_eq_some_iff.mp hlast
  rcases List.mem_append.mp hp with hp | hp
  · exact (List.pairwise_append.mp h.1).2.2 p hp last List.mem_cons_self |>.1.le
  · rw [List.mem_singleton.mp hp]

/-- A fresh object with a table from `add_fork` and an empty database. -/
theorem WindowInv.start {hf : HardFork} (htable : ForkTable hf.heights) (hfresh : Fresh hf) :
    WindowInv hf BlockchainDb.empty := by
  obtain ⟨hversions, hzero⟩ := hfresh
  refine ⟨htable, by simp [hversions], fun v => by simp [hversions, hzero], ?_, ?_⟩
  · intro last _ v hv
    simp [hversions] at hv
  · intro height v h
    cases h

/-! ### The operations keep the invariant -/

theorem WindowInv.add {hf hf' : HardFork} {db db' : BlockchainDb} {blockVersion votingVersion height : ℕ}
    (hinv : WindowInv hf db) (h : hf.add blockVersion votingVersion height db = some (hf', db')) :
    WindowInv hf' db' := by
  obtain ⟨current, hcurrent, -, -, rfl, rfl⟩ := add_eq_some_iff.mp h
  have htrim := trimWindow_fst hf.windowSize hf.versions hf.lastVersions
  refine ⟨hinv.table, ?_, ?_, ?_, ?_⟩
  · rw [addState_versions, List.length_append, htrim, List.length_drop, addState_windowSize]
    have := hf.windowSize_pos
    simp only [List.length_singleton]
    omega
  · rw [addState_versions, addState_lastVersions]
    exact (trimWindow_counts _ hinv.counts).concat _
  · intro last hlast v hv
    rw [addState_heights] at hlast
    rw [addState_versions, List.mem_append, htrim, List.mem_singleton] at hv
    rcases hv with hv | rfl
    · exact hinv.versions_le last hlast v (List.mem_of_mem_drop hv)
    · exact getEffectiveVersion_le hlast
  · intro height' v hrec
    rw [addState_heights]
    by_cases hh : height' = height
    · subst hh
      simp only [BlockchainDb.setHardForkVersion, Function.update_self, Option.some.injEq] at hrec
      exact ⟨current, List.mem_of_getElem? hcurrent, hrec⟩
    · simp only [BlockchainDb.setHardForkVersion, Function.update_of_ne hh] at hrec
      exact hinv.recorded height' v hrec

/-- A rebuilt window: the votes of `n` consecutive blocks of the database, with
`n ≤ window_size`, counted from zero. -/
theorem WindowInv.pushVotes {hf hf' : HardFork} {db : BlockchainDb} {s n : ℕ}
    (htable : ForkTable hf.heights) (hn : n ≤ hf.windowSize) (hsn : s + n ≤ db.height)
    (hrecorded : ∀ height v, db.hfVersions height = some v → ∃ p ∈ hf.heights, p.version = v)
    (h : HardFork.pushVotes db { hf with versions := [], lastVersions := fun _ => 0 } (List.range' s n) = some hf') :
    WindowInv hf' db := by
  obtain ⟨hf'', hpush, hversions, hcounts, hrest⟩ := pushVotes_range' hsn { hf with versions := [], lastVersions := fun _ => 0 }
  rw [hpush, Option.some.injEq] at h
  subst h
  rw [hrest]
  refine ⟨htable, ?_, hcounts (Counter.Counts.zero _), ?_, hrecorded⟩
  · rw [hversions]
    simp only [List.nil_append, List.length_map, List.length_take]
    omega
  · intro last hlast v hv
    rw [hversions, List.nil_append, List.mem_map] at hv
    obtain ⟨b, -, rfl⟩ := hv
    exact getEffectiveVersion_le hlast

/-- Only the current fork index changes. -/
theorem WindowInv.withForkIndex {hf : HardFork} {db : BlockchainDb} (hinv : WindowInv hf db) (i : ℕ) :
    WindowInv { hf with currentForkIndex := i } db :=
  ⟨hinv.table, hinv.length_le, hinv.counts, hinv.versions_le, hinv.recorded⟩

theorem WindowInv.raiseForkIndex {hf : HardFork} {db : BlockchainDb} (hinv : WindowInv hf db) (height : ℕ) :
    WindowInv (hf.raiseForkIndex height) db :=
  hinv.withForkIndex _

/-- A rescan that pushes at most `window_size` votes. -/
theorem WindowInv.rescanFromBlockHeight {hf hf' : HardFork} {db : BlockchainDb} {height : ℕ} {b : Bool}
    (hinv : WindowInv hf db) (hn : db.height - height ≤ hf.windowSize)
    (h : hf.rescanFromBlockHeight height db = some (b, hf')) : WindowInv hf' db := by
  unfold HardFork.rescanFromBlockHeight at h
  split_ifs at h with hle
  · obtain ⟨-, rfl⟩ := Prod.mk.injEq _ _ _ _ ▸ Option.some.inj h
    exact hinv
  · obtain ⟨hf₁, hpush, h⟩ := Option.bind_eq_some_iff.mp h
    obtain ⟨lastv, -, h⟩ := Option.bind_eq_some_iff.mp h
    obtain ⟨-, rfl⟩ := Prod.mk.injEq _ _ _ _ ▸ Option.some.inj h
    have hinv₁ : WindowInv hf₁ db :=
      WindowInv.pushVotes hinv.table hn (by omega) hinv.recorded hpush
    exact (hinv₁.withForkIndex _).raiseForkIndex _

theorem WindowInv.rescanFromChainHeight {hf hf' : HardFork} {db : BlockchainDb} {height : ℕ} {b : Bool}
    (hinv : WindowInv hf db) (hn : db.height - (height - 1) ≤ hf.windowSize)
    (h : hf.rescanFromChainHeight height db = some (b, hf')) : WindowInv hf' db := by
  unfold HardFork.rescanFromChainHeight at h
  split_ifs at h
  · obtain ⟨-, rfl⟩ := Prod.mk.injEq _ _ _ _ ▸ Option.some.inj h
    exact hinv
  · exact hinv.rescanFromBlockHeight hn h

/-- `init` restores at most `window_size` votes: those of the blocks from
`height() - window_size`, or from the genesis block on a shorter chain. -/
theorem WindowInv.init {hf hf' : HardFork} {db : BlockchainDb} (hinv : WindowInv hf db)
    (h : hf.init db = some hf') : WindowInv hf' db := by
  unfold HardFork.init at h
  extract_lets heights hf₀ height at h
  obtain ⟨⟨b, hf''⟩, hrescan, rfl⟩ := Option.map_eq_some_iff.mp h
  have hne : ∀ p ∈ hf.heights, p ∈ hf₀.heights := by
    intro p hp
    change p ∈ heights
    simpa only [heights, List.ne_nil_of_mem hp, if_false] using hp
  have htable : ForkTable hf₀.heights := hinv.table.init
  have hinv₀ : WindowInv hf₀ db := by
    refine ⟨htable, by simp [hf₀], fun v => by simp [hf₀], by simp [hf₀], ?_⟩
    intro height v hrec
    obtain ⟨p, hp, hv⟩ := hinv.recorded height v hrec
    exact ⟨p, hne p hp, hv⟩
  refine hinv₀.rescanFromChainHeight ?_ hrescan
  change db.height - (height - 1) ≤ hf.windowSize
  have hpos := hf.windowSize_pos
  have hw : hf₀.windowSize = hf.windowSize := rfl
  simp only [height, hw]
  split_ifs <;> omega

theorem WindowInv.addBlocksFrom {st st' : HardFork × BlockchainDb} (hinv : WindowInv st.1 st.2)
    (heights : List ℕ) (h : HardFork.addBlocksFrom heights st = some st') : WindowInv st'.1 st'.2 := by
  refine FoldInv.foldlM_option (P := fun st => WindowInv st.1 st.2) heights h hinv ?_
  intro acc height acc' _ hstep hacc
  obtain ⟨b, -, rfl⟩ := Option.map_eq_some_iff.mp hstep
  cases hadd : acc.1.addBlock b height acc.2 with
  | none => exact hacc
  | some r =>
    obtain ⟨hf', db'⟩ := r
    exact hacc.add hadd

/-- `reorganize_from_block_height` rebuilds the window from at most `window_size`
blocks, then adds the blocks above one by one. -/
theorem WindowInv.reorganizeFromBlockHeight {hf hf' : HardFork} {db db' : BlockchainDb} {height : ℕ} {b : Bool}
    (hinv : WindowInv hf db) (h : hf.reorganizeFromBlockHeight height db = some (b, hf', db')) :
    WindowInv hf' db' := by
  unfold HardFork.reorganizeFromBlockHeight at h
  by_cases hle : db.height ≤ height
  · rw [if_pos hle] at h
    simp only [Option.some.injEq, Prod.mk.injEq] at h
    obtain ⟨-, rfl, rfl⟩ := h
    exact hinv
  · rw [if_neg hle] at h
    extract_lets hf₀ rescanHeight at h
    obtain ⟨startVersion, -, h⟩ := Option.bind_eq_some_iff.mp h
    obtain ⟨currentForkIndex, -, h⟩ := Option.bind_eq_some_iff.mp h
    obtain ⟨hf₁, hpush, h⟩ := Option.bind_eq_some_iff.mp h
    obtain ⟨⟨hf₂, db₂⟩, hadd, h⟩ := Option.bind_eq_some_iff.mp h
    obtain ⟨-, rfl, rfl⟩ : b = true ∧ hf₂ = hf' ∧ db₂ = db' := by
      simp only [pure, Option.some.injEq, Prod.mk.injEq] at h
      exact ⟨h.1.symm, h.2.1, h.2.2⟩
    have hw : hf₀.windowSize = hf.windowSize := rfl
    have hn : height + 1 - rescanHeight ≤ hf.windowSize := by
      have hpos := hf.windowSize_pos
      simp only [rescanHeight, hw]
      split_ifs <;> omega
    have hr : rescanHeight ≤ height := by
      simp only [rescanHeight]
      split_ifs <;> omega
    have hinv₁ : WindowInv hf₁ db :=
      @WindowInv.pushVotes { hf with currentForkIndex } hf₁ db rescanHeight _ hinv.table hn (by omega)
        hinv.recorded hpush
    exact (hinv₁.raiseForkIndex _).addBlocksFrom _ hadd

/-- One pass of `on_block_popped` moves the newest vote out and a recorded version in. -/
theorem WindowInv.popVote {hf hf' : HardFork} {db : BlockchainDb} {height : ℕ} (hinv : WindowInv hf db)
    (h : HardFork.popVote db hf height = some hf') : WindowInv hf' db := by
  unfold HardFork.popVote at h
  obtain ⟨newest, hnewest, h⟩ := Option.bind_eq_some_iff.mp h
  obtain ⟨version, hversion, h⟩ := Option.bind_eq_some_iff.mp h
  cases h
  have hne : hf.versions ≠ [] := by
    intro hnil
    rw [hnil] at hnewest
    cases hnewest
  refine ⟨hinv.table, ?_, (hinv.counts.dropLast (by norm_num) hnewest).cons version, ?_, hinv.recorded⟩
  · have hlen : hf.versions.dropLast.length + 1 = hf.versions.length := by
      rw [List.length_dropLast]
      have := List.length_pos_of_ne_nil hne
      omega
    simp only [List.length_cons, hlen]
    exact hinv.length_le
  · intro last hlast v hv
    rcases List.mem_cons.mp hv with rfl | hv
    · obtain ⟨p, hp, rfl⟩ := hinv.recorded height v hversion
      exact hinv.table.version_le_last hp hlast
    · exact hinv.versions_le last hlast v (List.dropLast_subset _ hv)

theorem WindowInv.onBlockPopped {hf hf' : HardFork} {db : BlockchainDb} {nblocks : ℕ} (hinv : WindowInv hf db)
    (h : hf.onBlockPopped nblocks db = some hf') : WindowInv hf' db := by
  unfold HardFork.onBlockPopped at h
  split_ifs at h
  obtain ⟨hf₁, hpop, h⟩ := Option.bind_eq_some_iff.mp h
  obtain ⟨currentForkIndex, -, h⟩ := Option.bind_eq_some_iff.mp h
  cases h
  have hinv₁ : WindowInv hf₁ db :=
    FoldInv.foldlM_option (P := fun hf => WindowInv hf db) _ hpop hinv
      fun _ _ _ _ hstep hacc => hacc.popVote hstep
  exact hinv₁.withForkIndex _

/-! ### Runs keep the invariant -/

/-- Every step of a run of the public operations keeps the invariant. -/
theorem WindowInv.step {s s' : HardFork × BlockchainDb} (hinv : WindowInv s.1 s.2)
    (h : Step Op.IsPublic s s') : WindowInv s'.1 s'.2 := by
  cases h with
  | pushBlock hf db b => exact ⟨hinv.table, hinv.length_le, hinv.counts, hinv.versions_le, hinv.recorded⟩
  | popBlock hf db => exact ⟨hinv.table, hinv.length_le, hinv.counts, hinv.versions_le, hinv.recorded⟩
  | reset hf db => exact ⟨hinv.table, hinv.length_le, hinv.counts, hinv.versions_le, fun _ _ h => by cases h⟩
  | call o hpublic hrun =>
    cases o with
    | init =>
      obtain ⟨hf', hinit, heq⟩ := Option.map_eq_some_iff.mp hrun
      cases heq
      exact hinv.init hinit
    | add b height => exact hinv.add hrun
    | reorganizeFromBlockHeight height =>
      obtain ⟨⟨b, hf', db'⟩, hreorg, heq⟩ := Option.map_eq_some_iff.mp hrun
      cases heq
      exact hinv.reorganizeFromBlockHeight hreorg
    | rescanFromBlockHeight height => exact hpublic.elim
    | onBlockPopped nblocks =>
      obtain ⟨hf', hpop, heq⟩ := Option.map_eq_some_iff.mp hrun
      cases heq
      exact hinv.onBlockPopped hpop

theorem Reachable.windowInv {start s : HardFork × BlockchainDb} (hstart : WindowInv start.1 start.2)
    (h : Reachable Op.IsPublic start s) : WindowInv s.1 s.2 := by
  induction h with
  | start => exact hstart
  | step _ hstep ih => exact ih.step hstep

/-- Over every run of the public operations from a fresh object, whose table
`add_fork` accepted, and an empty database: the window holds at most `window_size`
votes; the counter of each version is the number of its votes modulo `2 ^ 32`, and
that number itself while `window_size < 2 ^ 32`; every vote is at most the version
of the last fork; and `add` never lowers the current fork index. -/
theorem hardFork_window_invariant {hf₀ : HardFork} (htable : ForkTable hf₀.heights) (hfresh : Fresh hf₀)
    {st : HardFork × BlockchainDb} (hreach : Reachable Op.IsPublic (hf₀, BlockchainDb.empty) st) :
    st.1.versions.length ≤ st.1.windowSize ∧
      (∀ v < 2 ^ 8, st.1.lastVersions v = st.1.versions.count v % 2 ^ 32) ∧
      (st.1.windowSize < 2 ^ 32 → ∀ v < 2 ^ 8, st.1.lastVersions v = st.1.versions.count v) ∧
      (∀ last ∈ st.1.heights.getLast?, ∀ v ∈ st.1.versions, v ≤ last.version) ∧
      ∀ b height hf' db', st.1.addBlock b height st.2 = some (hf', db') →
        st.1.currentForkIndex ≤ hf'.currentForkIndex := by
  have hinv := hreach.windowInv (WindowInv.start htable hfresh)
  refine ⟨hinv.length_le, fun v _ => hinv.counts v, ?_, hinv.versions_le, fun b height hf' db' h =>
    add_currentForkIndex_le h⟩
  intro hw v _
  exact hinv.counts.eq_count (lt_of_le_of_lt hinv.length_le hw) v

/-- The daemon's object on the main network, after `init` on an empty database and
the genesis block. -/
theorem hardFork_window_invariant_mainnet :
    ∃ st, Reachable Op.IsPublic (mainnetHardFork, BlockchainDb.empty) st ∧ st.2.height = 1 ∧
      (st.1.versions.length ≤ st.1.windowSize ∧
        (∀ v < 2 ^ 8, st.1.lastVersions v = st.1.versions.count v % 2 ^ 32) ∧
        (st.1.windowSize < 2 ^ 32 → ∀ v < 2 ^ 8, st.1.lastVersions v = st.1.versions.count v) ∧
        (∀ last ∈ st.1.heights.getLast?, ∀ v ∈ st.1.versions, v ≤ last.version) ∧
        ∀ b height hf' db', st.1.addBlock b height st.2 = some (hf', db') →
          st.1.currentForkIndex ≤ hf'.currentForkIndex) :=
  let genesis : BlockHeader := ⟨1, 0, by decide, by decide⟩
  have hreach : Reachable Op.IsPublic (mainnetHardFork, BlockchainDb.empty) _ :=
    .step (.step (.step .start (.call .init trivial rfl)) (.pushBlock _ _ genesis))
      (.call (.add genesis 0) trivial rfl)
  ⟨_, hreach, rfl, hardFork_window_invariant forkTable_mainnetHardForks ⟨rfl, fun _ => rfl⟩ hreach⟩

/-- Called directly below the first height of the window, the private
`rescan_from_block_height` pushes the votes of every block above, more than
`window_size`: with a window of one block, after `init` and two blocks, a rescan
from height 0 leaves two votes in the window. -/
theorem rescanFromBlockHeight_overfills_window :
    ∃ st, Reachable (fun _ => True)
      (⟨1, 80, 1, [⟨1, 0, 0, 0, by decide⟩], [], fun _ => 0, 0, by decide, by decide⟩, BlockchainDb.empty) st ∧
      st.1.windowSize < st.1.versions.length :=
  let b : BlockHeader := ⟨1, 0, by decide, by decide⟩
  ⟨_, .step (.step (.step (.step (.step (.step .start (.call .init trivial rfl)) (.pushBlock _ _ b))
    (.call (.add b 0) trivial rfl)) (.pushBlock _ _ b)) (.call (.add b 1) trivial rfl))
    (.call (.rescanFromBlockHeight 0) trivial rfl), by decide⟩

end HardFork

end Arqma.Cryptonote
