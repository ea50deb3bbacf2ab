import Arqma.Cryptonote.TxPool
import Arqma.Lib.FoldInv

/-!
# The index invariant of the transaction pool

`m_spent_key_images` maps each key image to the ids of the pool transactions that spend
it and holds no empty set, `m_txs_by_fee_and_receive_time` holds one entry for each
pool transaction, `m_txpool_weight` is the sum of their weights, and at most one
spender of a key image came in other than from a block (`PoolIndexInv`).

## What is proved

* `insertKeyImagesLoop_spec`, `removeTransactionKeyimagesLoop_spec`: on a well formed
  map, `insert_key_images` of a transaction whose key images are distinct and do not
  hold its id adds the id to the set of each, and `remove_transaction_keyimages` of one
  whose id each holds takes it out of each.
* `PoolIndexInv.addTx`, `PoolIndexInv.takeTx`, `PoolIndexInv.prune`: `add_tx` of a
  transaction not in the pool, with distinct key images and the blob of the
  transaction, `take_tx` and `prune` keep the invariant; with it, no `try_pruning`
  fails, so the batch of `prune` is committed.
* `addTx_false`: such an `add_tx` that returns `false` leaves the pool as it was, but
  for the `double_spend_seen` flags that `mark_double_spend` sets.
* `txPool_index_invariant`: over every run from an empty pool.

## Honest scope

The rejected `add_tx` of a transaction that repeats a key image, or of an id in the
pool, fails inside `insert_key_images` after some insertions (its early return); the
run relation `PoolOp` leaves such calls out. `m_parsed_tx_cache` is left out: it holds
the transaction of the blob `add_tx` stores, which `take_tx` would otherwise parse.
-/

namespace Arqma.Cryptonote

variable {κ η β φ : Type} [DecidableEq κ] [LinearOrder η]

/-! ### The key image loops -/

omit [LinearOrder η] in
theorem haveTxKeyimgAsSpent_iff {k : κ} {spent : List (κ × List η)} :
    haveTxKeyimgAsSpent k spent = true ↔ k ∈ spent.map Prod.fst := by
  simp [haveTxKeyimgAsSpent, List.any_eq_true]

/-- One step of `insert_key_images` at a key image whose set passes the check and does
not hold the id. -/
theorem insertKeyImagesLoop_toKey {id : η} {keptByBlock : Bool} {k : κ} {rest : List (TxIn κ)}
    {spent : List (κ × List η)} (hcheck : (keptByBlock || (Buckets.itemsOf k spent).length == 0) = true)
    (hnew : id ∉ Buckets.itemsOf k spent) :
    insertKeyImagesLoop id keptByBlock (.toKey k :: rest) spent =
      insertKeyImagesLoop id keptByBlock rest (Buckets.modifyOrCreate k (fun s => s ++ [id]) spent) := by
  have hcreate := Buckets.itemsOf_modifyOrCreate (k := k) (f := fun s : List η => s) spent
  simp only [insertKeyImagesLoop, hcreate]
  rw [if_neg (by rw [hcheck]; decide), if_neg hnew, Buckets.modifyOrCreate_modifyOrCreate]
  rfl

/-- `insert_key_images` on a well formed map, of distinct key images whose sets do not
hold the id, and are empty unless the transaction is kept by a block: it succeeds and
adds the id to the set of each. -/
theorem insertKeyImagesLoop_spec {id : η} {keptByBlock : Bool} :
    ∀ (ins : List (TxIn κ)) (spent : List (κ × List η)), Buckets.SetMap spent →
      (∀ x ∈ ins, ∃ k, x = .toKey k) → ins.Nodup →
      (∀ k, .toKey k ∈ ins → id ∉ Buckets.itemsOf k spent) →
      (keptByBlock = false → ∀ k, .toKey k ∈ ins → Buckets.itemsOf k spent = []) →
      (insertKeyImagesLoop id keptByBlock ins spent).1 = true ∧
        Buckets.SetMap (insertKeyImagesLoop id keptByBlock ins spent).2 ∧
        ∀ k, Buckets.itemsOf k (insertKeyImagesLoop id keptByBlock ins spent).2 =
          if .toKey k ∈ ins then Buckets.itemsOf k spent ++ [id] else Buckets.itemsOf k spent
  | [], spent, hmap, _, _, _, _ => ⟨rfl, hmap, fun k => by simp [insertKeyImagesLoop]⟩
  | x :: rest, spent, hmap, hkeys, hnodup, hfresh, hempty => by
    obtain ⟨k, rfl⟩ := hkeys x List.mem_cons_self
    obtain ⟨hk, hrest⟩ := List.nodup_cons.mp hnodup
    have hnew := hfresh k List.mem_cons_self
    have hcheck : (keptByBlock || (Buckets.itemsOf k spent).length == 0) = true := by
      cases hkept : keptByBlock
      · simp [hempty hkept k List.mem_cons_self]
      · rfl
    have hspent' : ∀ k', Buckets.itemsOf k' (Buckets.modifyOrCreate k (fun s => s ++ [id]) spent) =
        if k' = k then Buckets.itemsOf k spent ++ [id] else Buckets.itemsOf k' spent :=
      fun k' => Buckets.itemsOf_modifyOrCreate_eq spent
    have hmap' : Buckets.SetMap (Buckets.modifyOrCreate k (fun s => s ++ [id]) spent) :=
      hmap.modifyOrCreate (by simp) ((hmap.itemsOf_nodup k).append (List.nodup_singleton id) (by simpa using hnew))
    -- the key images after `k` are other than `k`, and their sets are as they were
    have hother : ∀ k', .toKey k' ∈ rest → k' ≠ k := fun k' hk' hkk => hk (hkk ▸ hk')
    obtain ⟨hok, hwf, hitems⟩ := insertKeyImagesLoop_spec rest _ hmap'
      (fun x hx => hkeys x (List.mem_cons_of_mem _ hx)) hrest
      (fun k' hk' => by
        rw [hspent', if_neg (hother k' hk')]
        exact hfresh k' (List.mem_cons_of_mem _ hk'))
      (fun hkept k' hk' => by
        rw [hspent', if_neg (hother k' hk')]
        exact hempty hkept k' (List.mem_cons_of_mem _ hk'))
    rw [insertKeyImagesLoop_toKey hcheck hnew]
    refine ⟨hok, hwf, fun k' => ?_⟩
    rw [hitems k', hspent']
    by_cases hkk : k' = k
    · subst hkk
      simp [hk]
    · simp [hkk]

/-- One step of `remove_transaction_keyimages` at a key image whose set holds the id. -/
theorem removeTransactionKeyimagesLoop_toKey {actualHash : η} {k : κ} {rest : List (TxIn κ)}
    {spent : List (κ × List η)} (hmem : actualHash ∈ Buckets.itemsOf k spent) (hmap : Buckets.SetMap spent) :
    removeTransactionKeyimagesLoop actualHash (.toKey k :: rest) spent =
      removeTransactionKeyimagesLoop actualHash rest
        (if ((Buckets.itemsOf k spent).erase actualHash).length = 0 then Buckets.eraseKey k spent
          else Buckets.modifyOrCreate k (fun _ => (Buckets.itemsOf k spent).erase actualHash) spent) := by
  have hspent : haveTxKeyimgAsSpent k spent = true :=
    haveTxKeyimgAsSpent_iff.mpr ((hmap.mem_keys_iff k).mpr (List.ne_nil_of_mem hmem))
  have hlen : (Buckets.itemsOf k spent).length ≠ 0 := List.length_pos_of_mem hmem |>.ne'
  simp only [removeTransactionKeyimagesLoop, hspent, Bool.not_true]
  rw [if_neg (by simp), if_neg hlen, if_neg (not_not.mpr hmem)]

/-- `remove_transaction_keyimages` on a well formed map, of distinct key images whose
sets hold the id: it succeeds and takes the id out of the set of each. -/
theorem removeTransactionKeyimagesLoop_spec {actualHash : η} :
    ∀ (ins : List (TxIn κ)) (spent : List (κ × List η)), Buckets.SetMap spent →
      (∀ x ∈ ins, ∃ k, x = .toKey k) → ins.Nodup →
      (∀ k, .toKey k ∈ ins → actualHash ∈ Buckets.itemsOf k spent) →
      (removeTransactionKeyimagesLoop actualHash ins spent).1 = true ∧
        Buckets.SetMap (removeTransactionKeyimagesLoop actualHash ins spent).2 ∧
        ∀ k, Buckets.itemsOf k (removeTransactionKeyimagesLoop actualHash ins spent).2 =
          if .toKey k ∈ ins then (Buckets.itemsOf k spent).erase actualHash else Buckets.itemsOf k spent
  | [], spent, hmap, _, _, _ => ⟨rfl, hmap, fun k => by simp [removeTransactionKeyimagesLoop]⟩
  | x :: rest, spent, hmap, hkeys, hnodup, hmem => by
    obtain ⟨k, rfl⟩ := hkeys x List.mem_cons_self
    obtain ⟨hk, hrest⟩ := List.nodup_cons.mp hnodup
    have hin := hmem k List.mem_cons_self
    set kiSet := (Buckets.itemsOf k spent).erase actualHash with hkiSet
    set spent' := if kiSet.length = 0 then Buckets.eraseKey k spent
      else Buckets.modifyOrCreate k (fun _ => kiSet) spent with hspent'
    -- the step leaves `kiSet` under `k` and the other sets as they were
    have hstep : ∀ k', Buckets.itemsOf k' spent' = if k' = k then kiSet else Buckets.itemsOf k' spent := by
      intro k'
      rw [hspent']
      split_ifs with hlen hkk hkk
      · rw [hkk, Buckets.itemsOf_eraseKey_self hmap.keys_nodup, List.length_eq_zero_iff.mp hlen]
      · exact Buckets.itemsOf_eraseKey_of_ne hkk spent
      · rw [Buckets.itemsOf_modifyOrCreate_eq, if_pos hkk]
      · rw [Buckets.itemsOf_modifyOrCreate_eq, if_neg hkk]
    have hmap' : Buckets.SetMap spent' := by
      rw [hspent']
      split_ifs with hlen
      · exact hmap.eraseKey
      · exact hmap.modifyOrCreate (fun h => hlen (by rw [h]; rfl)) ((hmap.itemsOf_nodup k).erase actualHash)
    have hother : ∀ k', .toKey k' ∈ rest → k' ≠ k := fun k' hk' hkk => hk (hkk ▸ hk')
    obtain ⟨hok, hwf, hitems⟩ := removeTransactionKeyimagesLoop_spec rest spent' hmap'
      (fun x hx => hkeys x (List.mem_cons_of_mem _ hx)) hrest
      (fun k' hk' => by
        rw [hstep, if_neg (hother k' hk')]
        exact hmem k' (List.mem_cons_of_mem _ hk'))
    rw [removeTransactionKeyimagesLoop_toKey hin hmap]
    refine ⟨hok, hwf, fun k' => ?_⟩
    rw [hitems k', hstep]
    by_cases hkk : k' = k
    · subst hkk
      simp [hk, hkiSet]
    · simp [hkk]

/-! ### The invariant -/

/-- The pool transaction `e` spends the key image `k`: its blob parses to a transaction
with an input of `k`. -/
def SpendsKeyImage (parse : β → Option (Transaction κ)) (e : η × TxpoolTxMeta × β) (k : κ) : Prop :=
  ∃ tx, parse e.2.2 = some tx ∧ TxIn.toKey k ∈ tx.vin

/-- Inputs the pool can hold: all `txin_to_key`, none twice. -/
def KeyInputs (tx : Transaction κ) : Prop := (∀ x ∈ tx.vin, ∃ k, x = .toKey k) ∧ tx.vin.Nodup

/-- The index invariant of the pool. -/
structure PoolIndexInv (parse : β → Option (Transaction κ)) (pool : TxMemoryPool κ η β φ) : Prop where
  ids_nodup : (pool.txpool.map Prod.fst).Nodup
  sorted_perm : List.Perm (pool.txsByFeeAndReceiveTime.map Prod.snd) (pool.txpool.map Prod.fst)
  weight_eq : pool.txpoolWeight = (pool.txpool.map fun e => e.2.1.weight).sum
  parses : ∀ e ∈ pool.txpool, ∃ tx, parse e.2.2 = some tx ∧ KeyInputs tx
  spent_map : Buckets.SetMap pool.spentKeyImages
  spenders : ∀ k id, id ∈ Buckets.itemsOf k pool.spentKeyImages ↔
    ∃ e ∈ pool.txpool, e.1 = id ∧ SpendsKeyImage parse e k
  one_not_kept : ∀ k, ∀ e₁ ∈ pool.txpool, ∀ e₂ ∈ pool.txpool, SpendsKeyImage parse e₁ k →
    SpendsKeyImage parse e₂ k → e₁.2.1.keptByBlock = false → e₂.2.1.keptByBlock = false → e₁.1 = e₂.1

variable {parse : β → Option (Transaction κ)} {pool : TxMemoryPool κ η β φ}

omit [LinearOrder η] in
/-- The pool table holds one record of each id. -/
theorem PoolIndexInv.eq_of_id (hinv : PoolIndexInv parse pool) {e₁ e₂ : η × TxpoolTxMeta × β}
    (h₁ : e₁ ∈ pool.txpool) (h₂ : e₂ ∈ pool.txpool) (hid : e₁.1 = e₂.1) : e₁ = e₂ :=
  List.inj_on_of_nodup_map hinv.ids_nodup h₁ h₂ hid

@[simp]
theorem removeFromPool_txsByFeeAndReceiveTime (tx : Transaction κ) (id : η) (txMeta : TxpoolTxMeta) :
    (Arqma.Cryptonote.removeFromPool tx id txMeta pool).txsByFeeAndReceiveTime = pool.txsByFeeAndReceiveTime := by
  unfold Arqma.Cryptonote.removeFromPool decreaseTxpoolWeight
  split_ifs <;> rfl

@[simp]
theorem removeFromPool_txpoolMaxWeight (tx : Transaction κ) (id : η) (txMeta : TxpoolTxMeta) :
    (Arqma.Cryptonote.removeFromPool tx id txMeta pool).txpoolMaxWeight = pool.txpoolMaxWeight := by
  unfold Arqma.Cryptonote.removeFromPool decreaseTxpoolWeight
  split_ifs <;> rfl

/-- Taking a pool transaction out of the tables, the weight and the key images, with a
sorted container that lost its id, keeps the invariant. -/
theorem PoolIndexInv.removeFromPool (hinv : PoolIndexInv parse pool) {e : η × TxpoolTxMeta × β}
    (he : e ∈ pool.txpool) {tx : Transaction κ} (htx : parse e.2.2 = some tx) {sorted : List (TxByFeeEntry φ η)}
    (hsorted : List.Perm (sorted.map Prod.snd) ((pool.txsByFeeAndReceiveTime.map Prod.snd).erase e.1)) :
    PoolIndexInv parse { removeFromPool tx e.1 e.2.1 pool with txsByFeeAndReceiveTime := sorted } := by
  obtain ⟨tx', htx', hkeys, hnodup⟩ := hinv.parses e he
  obtain rfl : tx' = tx := Option.some.inj (htx'.symm.trans htx)
  have hmem : ∀ k, .toKey k ∈ tx'.vin → e.1 ∈ Buckets.itemsOf k pool.spentKeyImages :=
    fun k hk => (hinv.spenders k e.1).mpr ⟨e, he, rfl, tx', htx, hk⟩
  obtain ⟨-, hmap, hitems⟩ := removeTransactionKeyimagesLoop_spec tx'.vin _ hinv.spent_map hkeys hnodup hmem
  have hrest : ∀ e', e' ∈ removeTxpoolTx e.1 pool.txpool ↔ e' ∈ pool.txpool ∧ e'.1 ≠ e.1 :=
    fun e' => KeyedList.mem_eraseP_key hinv.ids_nodup
  have hsum := KeyedList.sum_eraseP_key (g := fun e : η × TxpoolTxMeta × β => e.2.1.weight) hinv.ids_nodup he
  have hweight : ¬pool.txpoolWeight < e.2.1.weight := by
    rw [hinv.weight_eq, ← hsum]
    omega
  have hpool : { Arqma.Cryptonote.removeFromPool tx' e.1 e.2.1 pool with txsByFeeAndReceiveTime := sorted } =
      ⟨removeTxpoolTx e.1 pool.txpool, (removeTransactionKeyimagesLoop e.1 tx'.vin pool.spentKeyImages).2, sorted,
        pool.txpoolWeight - e.2.1.weight, pool.txpoolMaxWeight, pool.timedOutTransactions⟩ := by
    simp [Arqma.Cryptonote.removeFromPool, decreaseTxpoolWeight, hweight, removeTransactionKeyimages]
  rw [hpool]
  refine ⟨?_, ?_, ?_, fun e' he' => hinv.parses e' ((hrest e').mp he').1, hmap, fun k id => ?_,
    fun k e₁ h₁ e₂ h₂ => hinv.one_not_kept k e₁ ((hrest e₁).mp h₁).1 e₂ ((hrest e₂).mp h₂).1⟩
  · show (removeTxpoolTx e.1 pool.txpool |>.map Prod.fst).Nodup
    rw [removeTxpoolTx, KeyedList.map_fst_eraseP_key]
    exact hinv.ids_nodup.erase _
  · show List.Perm _ (removeTxpoolTx e.1 pool.txpool |>.map Prod.fst)
    rw [removeTxpoolTx, KeyedList.map_fst_eraseP_key]
    exact hsorted.trans (hinv.sorted_perm.erase e.1)
  · show pool.txpoolWeight - e.2.1.weight = ((removeTxpoolTx e.1 pool.txpool).map fun e => e.2.1.weight).sum
    rw [hinv.weight_eq, ← hsum, removeTxpoolTx]
    omega
  · show id ∈ Buckets.itemsOf k (removeTransactionKeyimagesLoop e.1 tx'.vin pool.spentKeyImages).2 ↔
      ∃ e' ∈ removeTxpoolTx e.1 pool.txpool, e'.1 = id ∧ SpendsKeyImage parse e' k
    rw [hitems k]
    split_ifs with hk
    · rw [(hinv.spent_map.itemsOf_nodup k).mem_erase_iff, hinv.spenders]
      constructor
      · rintro ⟨hne, e', he', rfl, hspends⟩
        exact ⟨e', (hrest e').mpr ⟨he', hne⟩, rfl, hspends⟩
      · rintro ⟨e', he', rfl, hspends⟩
        exact ⟨((hrest e').mp he').2, e', ((hrest e').mp he').1, rfl, hspends⟩
    · rw [hinv.spenders]
      constructor
      · rintro ⟨e', he', rfl, hspends⟩
        refine ⟨e', (hrest e').mpr ⟨he', fun hid => hk ?_⟩, rfl, hspends⟩
        obtain rfl := hinv.eq_of_id he' he hid
        obtain ⟨tx'', htx'', hk''⟩ := hspends
        rwa [Option.some.inj (htx''.symm.trans htx)] at hk''
      · rintro ⟨e', he', rfl, hspends⟩
        exact ⟨e', ((hrest e').mp he').1, rfl, hspends⟩

/-- `take_tx` keeps the invariant. -/
theorem PoolIndexInv.takeTx (hinv : PoolIndexInv parse pool) {id : η}
    {r : Transaction κ × β × TxpoolTxMeta × TxMemoryPool κ η β φ} (h : takeTx parse id pool = some r) :
    PoolIndexInv parse r.2.2.2 := by
  unfold Arqma.Cryptonote.takeTx getTxpoolTxMeta getTxpoolTxBlob at h
  cases hfind : pool.txpool.find? (fun x => x.1 = id) with
  | none => simp [hfind] at h
  | some e =>
    obtain ⟨he, rfl⟩ := KeyedList.mem_of_find?_key hfind
    cases htx : parse e.2.2 with
    | none => simp [hfind, htx] at h
    | some tx =>
      simp only [hfind, htx, Option.map_some, Option.bind_eq_bind, Option.bind_some, Option.some.injEq] at h
      subst h
      refine hinv.removeFromPool he htx ?_
      rw [removeFromPool_txsByFeeAndReceiveTime, KeyedList.map_eraseP_key Prod.snd]

omit [LinearOrder η] in
theorem PoolIndexInv.sorted_nodup (hinv : PoolIndexInv parse pool) : pool.txsByFeeAndReceiveTime.Nodup :=
  List.Nodup.of_map Prod.snd (hinv.sorted_perm.nodup_iff.mpr hinv.ids_nodup)

/-! ### Pruning -/

section Pruning

variable [LinearOrder φ]

omit [LinearOrder φ] in
/-- An entry of the sorted container has the record of its id in the pool tables. -/
theorem PoolIndexInv.find?_of_sorted (hinv : PoolIndexInv parse pool) {it : TxByFeeEntry φ η}
    (hit : it ∈ pool.txsByFeeAndReceiveTime) :
    ∃ e ∈ pool.txpool, pool.txpool.find? (fun x => x.1 = it.2) = some e := by
  have hid : it.2 ∈ pool.txpool.map Prod.fst := hinv.sorted_perm.subset (List.mem_map_of_mem hit)
  obtain ⟨e, he, hkey⟩ := List.mem_map.mp hid
  refine ⟨e, he, ?_⟩
  rw [← hkey]
  exact KeyedList.find?_key_of_mem hinv.ids_nodup he

/-- `remove_tx` of an entry of the sorted container with the meta of its id, as `prune`
calls it: it succeeds, keeps the invariant and the bound, and erases that entry only. -/
theorem PoolIndexInv.removeTx (hinv : PoolIndexInv parse pool) {it : TxByFeeEntry φ η}
    (hit : it ∈ pool.txsByFeeAndReceiveTime) {txMeta : TxpoolTxMeta}
    (hmeta : getTxpoolTxMeta it.2 pool.txpool = some txMeta) :
    ∃ pool', removeTx parse it.2 txMeta it pool = some pool' ∧ PoolIndexInv parse pool' ∧
      pool'.txpoolMaxWeight = pool.txpoolMaxWeight ∧
      ∀ x ∈ pool.txsByFeeAndReceiveTime, x ≠ it → x ∈ pool'.txsByFeeAndReceiveTime := by
  obtain ⟨e, he, hfind⟩ := hinv.find?_of_sorted hit
  have hkey : e.1 = it.2 := (KeyedList.mem_of_find?_key hfind).2
  have hmeta' : e.2.1 = txMeta := by simpa [getTxpoolTxMeta, hfind] using hmeta
  subst hmeta'
  obtain ⟨tx, htx, -⟩ := hinv.parses e he
  have hblob : getTxpoolTxBlob it.2 pool.txpool = some e.2.2 := by simp [getTxpoolTxBlob, hfind]
  refine ⟨{ Arqma.Cryptonote.removeFromPool tx it.2 e.2.1 pool with
    txsByFeeAndReceiveTime := pool.txsByFeeAndReceiveTime.erase it }, by simp [Arqma.Cryptonote.removeTx, hblob, htx], ?_,
    by simp, fun x hx hne => (List.mem_erase_of_ne hne).mpr hx⟩
  rw [← hkey]
  refine hinv.removeFromPool he htx ?_
  rw [hkey]
  exact KeyedList.map_erase_perm Prod.snd hit

/-- Under the invariant `try_pruning` succeeds at an entry of the sorted container: the
transaction stays, kept by a block, or goes with its entry. -/
theorem PoolIndexInv.tryPruning (hinv : PoolIndexInv parse pool) {it : TxByFeeEntry φ η}
    (hit : it ∈ pool.txsByFeeAndReceiveTime) :
    ∃ pool', tryPruning parse it pool = some pool' ∧ PoolIndexInv parse pool' ∧
      pool'.txpoolMaxWeight = pool.txpoolMaxWeight ∧
      ∀ x ∈ pool.txsByFeeAndReceiveTime, x ≠ it → x ∈ pool'.txsByFeeAndReceiveTime := by
  obtain ⟨e, -, hfind⟩ := hinv.find?_of_sorted hit
  have hmeta : getTxpoolTxMeta it.2 pool.txpool = some e.2.1 := by simp [getTxpoolTxMeta, hfind]
  unfold Arqma.Cryptonote.tryPruning
  rw [hmeta]
  dsimp only
  split_ifs with hkept
  · exact ⟨pool, rfl, hinv, rfl, fun x hx _ => hx⟩
  · exact hinv.removeTx hit hmeta

/-- The first loop of `prune`, over distinct entries of the container, succeeds and
keeps the invariant. -/
theorem PoolIndexInv.pruneForward (unexpired : ℤ) :
    ∀ (its : List (TxByFeeEntry φ η)) (pool : TxMemoryPool κ η β φ), PoolIndexInv parse pool → its.Nodup →
      (∀ x ∈ its, x ∈ pool.txsByFeeAndReceiveTime) →
      (pruneForward parse unexpired its pool).1 = true ∧ PoolIndexInv parse (pruneForward parse unexpired its pool).2
  | [], pool, hinv, _, _ => ⟨rfl, hinv⟩
  | it :: rest, pool, hinv, hnodup, hmem => by
    obtain ⟨hit, hrest⟩ := List.nodup_cons.mp hnodup
    unfold Arqma.Cryptonote.pruneForward
    split_ifs
    · exact ⟨rfl, hinv⟩
    · obtain ⟨pool', hpool', hinv', -, hkeep⟩ := hinv.tryPruning (hmem it List.mem_cons_self)
      rw [hpool']
      exact PoolIndexInv.pruneForward unexpired rest pool' hinv' hrest fun x hx =>
        hkeep x (hmem x (List.mem_cons_of_mem _ hx)) (fun h => hit (h ▸ hx))

/-- The second loop of `prune`, likewise. -/
theorem PoolIndexInv.pruneBackward :
    ∀ (its : List (TxByFeeEntry φ η)) (pool : TxMemoryPool κ η β φ), PoolIndexInv parse pool → its.Nodup →
      (∀ x ∈ its, x ∈ pool.txsByFeeAndReceiveTime) →
      (pruneBackward parse its pool).1 = true ∧ PoolIndexInv parse (pruneBackward parse its pool).2
  | [], pool, hinv, _, _ => ⟨rfl, hinv⟩
  | it :: rest, pool, hinv, hnodup, hmem => by
    obtain ⟨hit, hrest⟩ := List.nodup_cons.mp hnodup
    unfold Arqma.Cryptonote.pruneBackward
    split_ifs
    · exact ⟨rfl, hinv⟩
    · obtain ⟨pool', hpool', hinv', -, hkeep⟩ := hinv.tryPruning (hmem it List.mem_cons_self)
      rw [hpool']
      exact PoolIndexInv.pruneBackward rest pool' hinv' hrest fun x hx =>
        hkeep x (hmem x (List.mem_cons_of_mem _ hx)) (fun h => hit (h ▸ hx))

/-- `prune` keeps the invariant: no `try_pruning` fails, and its batch is committed. -/
theorem PoolIndexInv.prune (hinv : PoolIndexInv parse pool) (now : ℕ) :
    PoolIndexInv parse (Arqma.Cryptonote.prune parse now pool) := by
  obtain ⟨hforward, hinv₁⟩ := PoolIndexInv.pruneForward ((now : ℤ) - (mempoolPruneNonStandardTxLifetime : ℤ))
    pool.txsByFeeAndReceiveTime pool hinv hinv.sorted_nodup fun x hx => hx
  set pool₁ := (Arqma.Cryptonote.pruneForward parse ((now : ℤ) - (mempoolPruneNonStandardTxLifetime : ℤ))
    pool.txsByFeeAndReceiveTime pool).2 with hpool₁
  obtain ⟨hbackward, hinv₂⟩ := PoolIndexInv.pruneBackward (pool₁.txsByFeeAndReceiveTime.drop 1).reverse pool₁ hinv₁
    (List.nodup_reverse.mpr (hinv₁.sorted_nodup.sublist (List.drop_sublist _ _)))
    (fun x hx => List.mem_of_mem_drop (List.mem_reverse.mp hx))
  unfold Arqma.Cryptonote.prune
  simp only [hforward, ← hpool₁, hbackward, Bool.not_true]
  exact hinv₂

end Pruning

/-! ### Marking double spends -/

/-- A record of the pool tables with its `double_spend_seen` flag cleared. -/
def withoutSeen (e : η × TxpoolTxMeta × β) : η × TxpoolTxMeta × β :=
  (e.1, { e.2.1 with doubleSpendSeen := false }, e.2.2)

omit [DecidableEq κ] [LinearOrder η] in
theorem map_fst_of_withoutSeen {t t' : List (η × TxpoolTxMeta × β)} (h : t.map withoutSeen = t'.map withoutSeen) :
    t.map Prod.fst = t'.map Prod.fst := by
  simpa [List.map_map, withoutSeen, Function.comp_def] using congrArg (List.map Prod.fst) h

omit [DecidableEq κ] [LinearOrder η] in
/-- A record of tables that agree but for the flags has a record of the other table
with its id, meta but for the flag, and blob. -/
theorem exists_of_withoutSeen {t t' : List (η × TxpoolTxMeta × β)} (h : t'.map withoutSeen = t.map withoutSeen)
    {e' : η × TxpoolTxMeta × β} (he' : e' ∈ t') : ∃ e ∈ t, withoutSeen e = withoutSeen e' := by
  have hmem : withoutSeen e' ∈ t.map withoutSeen := h ▸ List.mem_map_of_mem he'
  exact List.mem_map.mp hmem

omit [DecidableEq κ] in
theorem markDoubleSpendSeen_withoutSeen {txpool : List (η × TxpoolTxMeta × β)} (hnodup : (txpool.map Prod.fst).Nodup)
    (txid : η) : (markDoubleSpendSeen txpool txid).map withoutSeen = txpool.map withoutSeen := by
  unfold markDoubleSpendSeen getTxpoolTxMeta
  cases hfind : txpool.find? (fun x => x.1 = txid) with
  | none => rfl
  | some e =>
    obtain ⟨he, hkey⟩ := KeyedList.mem_of_find?_key hfind
    simp only [Option.map_some]
    split_ifs
    · rfl
    · have hany : txpool.any (fun x => x.1 = txid) = true := List.any_eq_true.mpr ⟨e, he, by simpa using hkey⟩
      simp only [updateTxpoolTx, hany, if_true, Option.getD_some, List.map_map]
      refine List.map_congr_left fun x hx => ?_
      simp only [Function.comp_apply]
      split_ifs with hx'
      · obtain rfl := List.inj_on_of_nodup_map hnodup hx he (hx'.trans hkey.symm)
        rfl
      · rfl

theorem markDoubleSpendLoop_withoutSeen (spent : List (κ × List η)) :
    ∀ (ins : List (TxIn κ)) (txpool txpool' : List (η × TxpoolTxMeta × β)), (txpool.map Prod.fst).Nodup →
      markDoubleSpendLoop spent ins txpool = some txpool' → txpool'.map withoutSeen = txpool.map withoutSeen
  | [], txpool, txpool', _, h => by
    simp only [markDoubleSpendLoop, Option.some.injEq] at h
    rw [h]
  | x :: rest, txpool, txpool', hnodup, h => by
    cases x with
    | toKey k =>
      -- the spenders of `k` are marked one after another
      have hfold : ((Buckets.itemsOf k spent).foldl markDoubleSpendSeen txpool).map withoutSeen =
          txpool.map withoutSeen :=
        FoldInv.foldl (P := fun t : List (η × TxpoolTxMeta × β) => t.map withoutSeen = txpool.map withoutSeen) _ rfl fun acc txid _ hacc => by
          rw [markDoubleSpendSeen_withoutSeen (by rw [map_fst_of_withoutSeen hacc]; exact hnodup), hacc]
      rw [← hfold]
      exact markDoubleSpendLoop_withoutSeen spent rest _ txpool' (by rw [map_fst_of_withoutSeen hfold]; exact hnodup) h
    | gen | toScript | toScripthash => simp [markDoubleSpendLoop] at h

/-- `mark_double_spend` changes only the `double_spend_seen` flags of the pool tables. -/
theorem markDoubleSpend_eq (hnodup : (pool.txpool.map Prod.fst).Nodup) (tx : Transaction κ) :
    ∃ txpool', markDoubleSpend tx pool = { pool with txpool := txpool' } ∧
      txpool'.map withoutSeen = pool.txpool.map withoutSeen := by
  unfold markDoubleSpend
  cases h : markDoubleSpendLoop pool.spentKeyImages tx.vin pool.txpool with
  | none => exact ⟨pool.txpool, rfl, rfl⟩
  | some txpool' => exact ⟨txpool', rfl, markDoubleSpendLoop_withoutSeen _ _ _ _ hnodup h⟩

omit [DecidableEq κ] [LinearOrder η] in
theorem spendsKeyImage_congr {e e' : η × TxpoolTxMeta × β} (h : e.2.2 = e'.2.2) (k : κ) :
    SpendsKeyImage parse e k ↔ SpendsKeyImage parse e' k := by
  rw [SpendsKeyImage, SpendsKeyImage, h]

omit [LinearOrder η] in
/-- Tables that agree but for the `double_spend_seen` flags keep the invariant. -/
theorem PoolIndexInv.of_withoutSeen (hinv : PoolIndexInv parse pool) {txpool' : List (η × TxpoolTxMeta × β)}
    (h : txpool'.map withoutSeen = pool.txpool.map withoutSeen) : PoolIndexInv parse { pool with txpool := txpool' } := by
  have hfst := map_fst_of_withoutSeen h
  have hback : ∀ e ∈ pool.txpool, ∃ e' ∈ txpool', withoutSeen e' = withoutSeen e := fun e he =>
    (exists_of_withoutSeen h.symm he).imp fun e' he' => ⟨he'.1, he'.2⟩
  refine ⟨hfst ▸ hinv.ids_nodup, hfst ▸ hinv.sorted_perm, ?_, fun e' he' => ?_, hinv.spent_map, fun k id => ?_,
    fun k e₁' h₁ e₂' h₂ hs₁ hs₂ hk₁ hk₂ => ?_⟩
  · have hweight := congrArg (List.map fun e : η × TxpoolTxMeta × β => e.2.1.weight) h
    simp only [List.map_map] at hweight
    rw [hinv.weight_eq]
    exact congrArg List.sum hweight.symm
  · obtain ⟨e, he, heq⟩ := exists_of_withoutSeen h he'
    rw [show e'.2.2 = e.2.2 from congrArg (·.2.2) heq.symm]
    exact hinv.parses e he
  · show id ∈ Buckets.itemsOf k pool.spentKeyImages ↔ ∃ e' ∈ txpool', e'.1 = id ∧ SpendsKeyImage parse e' k
    rw [hinv.spenders]
    constructor
    · rintro ⟨e, he, rfl, hspends⟩
      obtain ⟨e', he', heq⟩ := hback e he
      exact ⟨e', he', congrArg (·.1) heq, (spendsKeyImage_congr (congrArg (·.2.2) heq) k).mpr hspends⟩
    · rintro ⟨e', he', rfl, hspends⟩
      obtain ⟨e, he, heq⟩ := exists_of_withoutSeen h he'
      exact ⟨e, he, congrArg (·.1) heq, (spendsKeyImage_congr (congrArg (·.2.2) heq) k).mpr hspends⟩
  · obtain ⟨e₁, he₁, heq₁⟩ := exists_of_withoutSeen h h₁
    obtain ⟨e₂, he₂, heq₂⟩ := exists_of_withoutSeen h h₂
    have hid₁ : e₁.1 = e₁'.1 := congrArg (·.1) heq₁
    have hid₂ : e₂.1 = e₂'.1 := congrArg (·.1) heq₂
    rw [← hid₁, ← hid₂]
    exact hinv.one_not_kept k e₁ he₁ e₂ he₂ ((spendsKeyImage_congr (congrArg (·.2.2) heq₁) k).mpr hs₁)
      ((spendsKeyImage_congr (congrArg (·.2.2) heq₂) k).mpr hs₂)
      ((congrArg (·.2.1.keptByBlock) heq₁).trans hk₁) ((congrArg (·.2.1.keptByBlock) heq₂).trans hk₂)

/-! ### Adding a transaction -/

omit [DecidableEq κ] in
theorem checkInputsTypesSupported_iff {tx : Transaction κ} :
    checkInputsTypesSupported tx = true ↔ ∀ x ∈ tx.vin, ∃ k, x = .toKey k := by
  unfold checkInputsTypesSupported
  rw [List.all_eq_true]
  refine forall₂_congr fun x _ => ?_
  cases x <;> simp

omit [LinearOrder η] in
theorem haveTxKeyimgAsSpent_of_haveTxKeyimgesAsSpent {tx : Transaction κ} {spent : List (κ × List η)}
    (h : haveTxKeyimgesAsSpent tx spent = false) {k : κ} (hk : .toKey k ∈ tx.vin) :
    haveTxKeyimgAsSpent k spent = false := by
  unfold haveTxKeyimgesAsSpent at h
  simpa using List.any_eq_false.mp h _ hk

omit [DecidableEq κ] [LinearOrder η] in
theorem spendsKeyImage_iff_of_parse {e : η × TxpoolTxMeta × β} {tx : Transaction κ} (h : parse e.2.2 = some tx)
    (k : κ) : SpendsKeyImage parse e k ↔ .toKey k ∈ tx.vin := by
  constructor
  · rintro ⟨tx', htx', hk⟩
    rwa [Option.some.inj (htx'.symm.trans h)] at hk
  · exact fun hk => ⟨tx, h, hk⟩

omit [LinearOrder η] in
/-- A key image the map does not hold is spent by no pool transaction. -/
theorem PoolIndexInv.not_spends (hinv : PoolIndexInv parse pool) {k : κ}
    (hk : haveTxKeyimgAsSpent k pool.spentKeyImages = false) {e : η × TxpoolTxMeta × β} (he : e ∈ pool.txpool) :
    ¬SpendsKeyImage parse e k := fun hspends => by
  have hid : e.1 ∈ Buckets.itemsOf k pool.spentKeyImages := (hinv.spenders k e.1).mpr ⟨e, he, rfl, hspends⟩
  have hkey := (hinv.spent_map.mem_keys_iff k).mpr (List.ne_nil_of_mem hid)
  rw [← haveTxKeyimgAsSpent_iff, hk] at hkey
  cases hkey

omit [DecidableEq κ] in
theorem removeTxpoolTx_of_not_mem {id : η} {txpool : List (η × TxpoolTxMeta × β)} (h : id ∉ txpool.map Prod.fst) :
    removeTxpoolTx id txpool = txpool :=
  List.eraseP_of_forall_not fun e he hid => h (List.mem_map.mpr ⟨e, he, by simpa using hid⟩)

omit [DecidableEq κ] in
theorem addTxpoolTx_of_not_mem {id : η} {blob : β} {txMeta : TxpoolTxMeta} {txpool : List (η × TxpoolTxMeta × β)}
    (h : id ∉ txpool.map Prod.fst) : addTxpoolTx id blob txMeta txpool = some (txpool ++ [(id, txMeta, blob)]) := by
  have hany : txpool.any (fun e => e.1 = id) = false :=
    List.any_eq_false.mpr fun e he hid => h (List.mem_map.mpr ⟨e, he, by simpa using hid⟩)
  simp [addTxpoolTx, hany]

section Add

variable [LinearOrder φ]

omit [DecidableEq κ] in
theorem emplace_perm {e : TxByFeeEntry φ η} {l : List (TxByFeeEntry φ η)} (h : e ∉ l) :
    List.Perm (emplace e l) (e :: l) := by
  rw [emplace, if_neg h]
  exact List.perm_orderedInsert _ _ _

omit [LinearOrder φ] in
/-- Under the invariant, `insert_key_images` of a transaction not in the pool, with
distinct key images spent by no pool transaction unless it comes from a block,
succeeds and adds its id to the set of each. -/
theorem PoolIndexInv.insertKeyImages_spec (hinv : PoolIndexInv parse pool) {tx : Transaction κ} {id : η}
    (hfresh : id ∉ pool.txpool.map Prod.fst) (htypes : checkInputsTypesSupported tx = true) (hnodup : tx.vin.Nodup)
    {keptByBlock : Bool} (hspent : keptByBlock = false → haveTxKeyimgesAsSpent tx pool.spentKeyImages = false) :
    (insertKeyImagesLoop id keptByBlock tx.vin pool.spentKeyImages).1 = true ∧
      Buckets.SetMap (insertKeyImagesLoop id keptByBlock tx.vin pool.spentKeyImages).2 ∧
      ∀ k, Buckets.itemsOf k (insertKeyImagesLoop id keptByBlock tx.vin pool.spentKeyImages).2 =
        if .toKey k ∈ tx.vin then Buckets.itemsOf k pool.spentKeyImages ++ [id] else Buckets.itemsOf k pool.spentKeyImages :=
  insertKeyImagesLoop_spec tx.vin pool.spentKeyImages hinv.spent_map (checkInputsTypesSupported_iff.mp htypes) hnodup
    (fun k _ hid => hfresh (by
      obtain ⟨e, he, hkey, -⟩ := (hinv.spenders k id).mp hid
      exact hkey ▸ List.mem_map_of_mem he))
    (fun hk k hin => Buckets.itemsOf_of_not_mem (by
      rw [← haveTxKeyimgAsSpent_iff, haveTxKeyimgAsSpent_of_haveTxKeyimgesAsSpent (hspent hk) hin]
      decide))

/-- The pool with a transaction filed in its tables, key images and sorted entries,
and its weight added, keeps the invariant: what `add_tx` commits of a transaction not
in the pool, with distinct key images spent by no pool transaction unless it comes from
a block. -/
theorem PoolIndexInv.file (hinv : PoolIndexInv parse pool) {tx : Transaction κ} {id : η} {blob : β}
    (hblob : parse blob = some tx) (hfresh : id ∉ pool.txpool.map Prod.fst) (htypes : checkInputsTypesSupported tx = true)
    (hnodup : tx.vin.Nodup) {keptByBlock : Bool}
    (hspent : keptByBlock = false → haveTxKeyimgesAsSpent tx pool.spentKeyImages = false)
    {txMeta : TxpoolTxMeta} (hkept : txMeta.keptByBlock = keptByBlock) {entry : TxByFeeEntry φ η} (hentry : entry.2 = id) :
    PoolIndexInv parse ⟨pool.txpool ++ [(id, txMeta, blob)],
      (insertKeyImagesLoop id keptByBlock tx.vin pool.spentKeyImages).2, emplace entry pool.txsByFeeAndReceiveTime,
      pool.txpoolWeight + txMeta.weight, pool.txpoolMaxWeight, pool.timedOutTransactions⟩ := by
  have hkeys := checkInputsTypesSupported_iff.mp htypes
  have hnot : ∀ k, keptByBlock = false → .toKey k ∈ tx.vin → haveTxKeyimgAsSpent k pool.spentKeyImages = false :=
    fun k hk hin => haveTxKeyimgAsSpent_of_haveTxKeyimgesAsSpent (hspent hk) hin
  obtain ⟨-, hmap, hitems⟩ := hinv.insertKeyImages_spec hfresh htypes hnodup hspent
  have hnew : SpendsKeyImage parse (id, txMeta, blob) = fun k => .toKey k ∈ tx.vin :=
    funext fun k => propext (spendsKeyImage_iff_of_parse hblob k)
  have hentry_not : entry ∉ pool.txsByFeeAndReceiveTime := fun h =>
    hfresh (hinv.sorted_perm.subset (hentry ▸ List.mem_map_of_mem h))
  refine ⟨?_, ?_, ?_, fun e he => ?_, hmap, fun k x => ?_, fun k e₁ h₁ e₂ h₂ hs₁ hs₂ hk₁ hk₂ => ?_⟩
  · rw [List.map_append]
    refine List.nodup_append.mpr ⟨hinv.ids_nodup, List.nodup_singleton _, fun a ha b hb hab => hfresh ?_⟩
    rw [List.map_singleton, List.mem_singleton] at hb
    rw [hab, hb] at ha
    exact ha
  · have hperm := (emplace_perm hentry_not).map Prod.snd
    rw [List.map_cons, hentry] at hperm
    rw [List.map_append, List.map_singleton]
    exact hperm.trans ((hinv.sorted_perm.cons id).trans (List.perm_append_singleton id _).symm)
  · show pool.txpoolWeight + txMeta.weight = ((pool.txpool ++ [(id, txMeta, blob)]).map fun e => e.2.1.weight).sum
    rw [hinv.weight_eq, List.map_append, List.sum_append]
    simp
  · rcases List.mem_append.mp he with he | he
    · exact hinv.parses e he
    · rw [List.mem_singleton.mp he]
      exact ⟨tx, hblob, hkeys, hnodup⟩
  · show x ∈ Buckets.itemsOf k (insertKeyImagesLoop id keptByBlock tx.vin pool.spentKeyImages).2 ↔
      ∃ e ∈ pool.txpool ++ [(id, txMeta, blob)], e.1 = x ∧ SpendsKeyImage parse e k
    simp only [hitems k, List.mem_append, List.mem_singleton]
    constructor
    · intro hx
      split_ifs at hx with hk
      · rcases List.mem_append.mp hx with hx | hx
        · obtain ⟨e, he, rfl, hs⟩ := (hinv.spenders k x).mp hx
          exact ⟨e, .inl he, rfl, hs⟩
        · rw [List.mem_singleton.mp hx]
          exact ⟨_, .inr rfl, rfl, hnew ▸ hk⟩
      · obtain ⟨e, he, rfl, hs⟩ := (hinv.spenders k x).mp hx
        exact ⟨e, .inl he, rfl, hs⟩
    · rintro ⟨e, he | rfl, rfl, hs⟩
      · have hx := (hinv.spenders k e.1).mpr ⟨e, he, rfl, hs⟩
        split_ifs
        · exact List.mem_append_left _ hx
        · exact hx
      · rw [hnew] at hs
        rw [if_pos hs]
        exact List.mem_append_right _ (List.mem_singleton_self _)
  · rcases List.mem_append.mp h₁ with h₁ | h₁ <;> rcases List.mem_append.mp h₂ with h₂ | h₂
    · exact hinv.one_not_kept k e₁ h₁ e₂ h₂ hs₁ hs₂ hk₁ hk₂
    · rw [List.mem_singleton.mp h₂] at hs₂ hk₂
      rw [hnew] at hs₂
      exact absurd hs₁ (hinv.not_spends (hnot k (hkept ▸ hk₂) hs₂) h₁)
    · rw [List.mem_singleton.mp h₁] at hs₁ hk₁
      rw [hnew] at hs₁
      exact absurd hs₂ (hinv.not_spends (hnot k (hkept ▸ hk₁) hs₁) h₂)
    · rw [List.mem_singleton.mp h₁, List.mem_singleton.mp h₂]

/-- A call of `add_tx` that the runs of the pool make: with the blob of the
transaction, an id the pool does not hold, inputs none twice, and a total weight that
fits a `size_t`. -/
structure AddTxPre (parse : β → Option (Transaction κ)) (tx : Transaction κ) (id : η) (blob : β) (txWeight : ℕ)
    (pool : TxMemoryPool κ η β φ) : Prop where
  parse_blob : parse blob = some tx
  fresh : id ∉ pool.txpool.map Prod.fst
  vin_nodup : tx.vin.Nodup
  fits : (pool.txpool.map fun e => e.2.1.weight).sum + txWeight < 2 ^ 64

/-- The commit of such an `add_tx`: the transaction is filed and the pool pruned. -/
theorem PoolIndexInv.addTxCommit (hinv : PoolIndexInv parse pool) {tx : Transaction κ} {id : η} {blob : β}
    {txWeight : ℕ} (hpre : AddTxPre parse tx id blob txWeight pool) (htypes : checkInputsTypesSupported tx = true)
    {keptByBlock : Bool} (hspent : keptByBlock = false → haveTxKeyimgesAsSpent tx pool.spentKeyImages = false)
    {txMeta : TxpoolTxMeta} (hweight : txMeta.weight = txWeight) (hkept : txMeta.keptByBlock = keptByBlock)
    {entry : TxByFeeEntry φ η} (hentry : entry.2 = id) (now : ℕ) :
    (addTxCommit parse now tx id keptByBlock txWeight entry (some (pool.txpool ++ [(id, txMeta, blob)])) pool).1 = true ∧
      PoolIndexInv parse
        (addTxCommit parse now tx id keptByBlock txWeight entry (some (pool.txpool ++ [(id, txMeta, blob)])) pool).2 := by
  have hok := (hinv.insertKeyImages_spec hpre.fresh htypes hpre.vin_nodup hspent).1
  have hfiled := hinv.file hpre.parse_blob hpre.fresh htypes hpre.vin_nodup hspent hkept hentry
  have hsum : Word64.add pool.txpoolWeight txWeight = pool.txpoolWeight + txMeta.weight := by
    rw [hweight, Word64.add_of_lt (by rw [hinv.weight_eq]; exact hpre.fits)]
  unfold Arqma.Cryptonote.addTxCommit
  simp only [insertKeyImages, hok, Bool.not_true, hsum]
  exact ⟨rfl, hfiled.prune now⟩

/-- The three things such an `add_tx` may do: return `false` with the pool as it was,
return `false` after `mark_double_spend`, or return `true` with the invariant kept. -/
def AddTxOutcome (parse : β → Option (Transaction κ)) (tx : Transaction κ) (pool : TxMemoryPool κ η β φ)
    (r : Bool × TxMemoryPool κ η β φ) : Prop :=
  r = (false, pool) ∨ r = (false, markDoubleSpend tx pool) ∨ (r.1 = true ∧ PoolIndexInv parse r.2)

omit [LinearOrder φ] in
/-- A check of `add_tx` that fails returns `false` with the pool as it was. -/
theorem AddTxOutcome.ite_pool {parse : β → Option (Transaction κ)} {tx : Transaction κ} {c : Prop} [Decidable c]
    {r : Bool × TxMemoryPool κ η β φ} (h : ¬c → AddTxOutcome parse tx pool r) :
    AddTxOutcome parse tx pool (if c then (false, pool) else r) := by
  by_cases hc : c
  · rw [if_pos hc]
    exact .inl rfl
  · rw [if_neg hc]
    exact h hc

omit [LinearOrder φ] in
/-- A double spend that `add_tx` finds returns `false` after `mark_double_spend`. -/
theorem AddTxOutcome.ite_mark {parse : β → Option (Transaction κ)} {tx : Transaction κ} {c : Prop} [Decidable c]
    {r : Bool × TxMemoryPool κ η β φ} (h : ¬c → AddTxOutcome parse tx pool r) :
    AddTxOutcome parse tx pool (if c then (false, markDoubleSpend tx pool) else r) := by
  by_cases hc : c
  · rw [if_pos hc]
    exact .inr (.inl rfl)
  · rw [if_neg hc]
    exact h hc

theorem addTx_cases {env : TxPoolEnv κ η β φ} (hinv : PoolIndexInv env.parseTx pool) {tx : Transaction κ} {id : η}
    {blob : β} {txWeight : ℕ} (hpre : AddTxPre env.parseTx tx id blob txWeight pool)
    (now blobSize : ℕ) (opts : TxPoolOptions) (hardForkVersion : ℕ) :
    AddTxOutcome env.parseTx tx pool (addTx env now tx id blob blobSize txWeight opts hardForkVersion pool) := by
  unfold Arqma.Cryptonote.addTx
  -- the checks in the order of the source, up to the one of the inputs
  refine AddTxOutcome.ite_pool fun _ => AddTxOutcome.ite_pool fun _ => AddTxOutcome.ite_pool fun _ =>
    AddTxOutcome.ite_pool fun htypes => AddTxOutcome.ite_pool fun _ => ?_
  refine AddTxOutcome.ite_pool fun _ => AddTxOutcome.ite_mark fun hspent => AddTxOutcome.ite_mark fun _ =>
    AddTxOutcome.ite_pool fun _ => ?_
  have htypes : checkInputsTypesSupported tx = true := by simpa using htypes
  by_cases hinputs : (!env.checkTxInputs tx id opts.keptByBlock) = true
  · rw [if_pos hinputs]
    by_cases hkept : opts.keptByBlock = true
    · -- a transaction from a block is filed even with inputs that fail the check
      rw [if_pos hkept]
      dsimp only
      rw [addTxpoolTx_of_not_mem hpre.fresh]
      have hspent : opts.keptByBlock = false → haveTxKeyimgesAsSpent tx pool.spentKeyImages = false := by
        intro hk
        simp [hk] at hkept
      exact .inr (.inr (hinv.addTxCommit hpre htypes hspent rfl rfl rfl now))
    · rw [if_neg hkept]
      exact .inl rfl
  · rw [if_neg hinputs]
    dsimp only
    rw [removeTxpoolTx_of_not_mem hpre.fresh, addTxpoolTx_of_not_mem hpre.fresh]
    have hspent : opts.keptByBlock = false → haveTxKeyimgesAsSpent tx pool.spentKeyImages = false := by
      simpa using hspent
    exact .inr (.inr (hinv.addTxCommit hpre htypes hspent rfl rfl rfl now))

theorem PoolIndexInv.addTx {env : TxPoolEnv κ η β φ} (hinv : PoolIndexInv env.parseTx pool) {tx : Transaction κ}
    {id : η} {blob : β} {txWeight : ℕ} (hpre : AddTxPre env.parseTx tx id blob txWeight pool)
    (now blobSize : ℕ) (opts : TxPoolOptions) (hardForkVersion : ℕ) :
    PoolIndexInv env.parseTx (addTx env now tx id blob blobSize txWeight opts hardForkVersion pool).2 := by
  rcases addTx_cases hinv hpre now blobSize opts hardForkVersion with h | h | ⟨-, h⟩
  · rw [h]
    exact hinv
  · rw [h]
    obtain ⟨txpool', hmark, hseen⟩ := markDoubleSpend_eq hinv.ids_nodup tx
    rw [hmark]
    exact hinv.of_withoutSeen hseen
  · exact h

/-- Such an `add_tx` that returns `false` leaves `m_spent_key_images`,
`m_txs_by_fee_and_receive_time`, `m_txpool_weight` and the pool tables as they were,
but for the `double_spend_seen` flags. -/
theorem addTx_false {env : TxPoolEnv κ η β φ} (hinv : PoolIndexInv env.parseTx pool) {tx : Transaction κ} {id : η}
    {blob : β} {txWeight : ℕ} (hpre : AddTxPre env.parseTx tx id blob txWeight pool)
    {now blobSize : ℕ} {opts : TxPoolOptions} {hardForkVersion : ℕ}
    (h : (addTx env now tx id blob blobSize txWeight opts hardForkVersion pool).1 = false) :
    ∃ txpool', (addTx env now tx id blob blobSize txWeight opts hardForkVersion pool).2 = { pool with txpool := txpool' } ∧
      txpool'.map withoutSeen = pool.txpool.map withoutSeen := by
  rcases addTx_cases hinv hpre now blobSize opts hardForkVersion with hadd | hadd | ⟨htrue, -⟩
  · rw [hadd]
    exact ⟨pool.txpool, rfl, rfl⟩
  · rw [hadd]
    exact markDoubleSpend_eq hinv.ids_nodup tx
  · rw [htrue] at h
    cases h

end Add

/-! ### Runs of the pool -/

section Run

variable [LinearOrder φ]

/-- The operations of `tx_memory_pool` on its indices, with the arguments their callers
give them: `add_tx` of a parsed transaction under a fresh id, with any options;
`take_tx`; `remove_tx` of an entry of the sorted container with the meta of its id, as
`prune` calls it; and `prune`. A `take_tx` or `remove_tx` that fails does so before any
change. -/
inductive PoolOp (env : TxPoolEnv κ η β φ) : TxMemoryPool κ η β φ → TxMemoryPool κ η β φ → Prop
  | addTx {pool : TxMemoryPool κ η β φ} {tx : Transaction κ} {id : η} {blob : β} {txWeight : ℕ}
      (hpre : AddTxPre env.parseTx tx id blob txWeight pool) (now blobSize : ℕ) (opts : TxPoolOptions)
      (hardForkVersion : ℕ) :
      PoolOp env pool (Arqma.Cryptonote.addTx env now tx id blob blobSize txWeight opts hardForkVersion pool).2
  | takeTx {pool : TxMemoryPool κ η β φ} {id : η} {r : Transaction κ × β × TxpoolTxMeta × TxMemoryPool κ η β φ}
      (h : Arqma.Cryptonote.takeTx env.parseTx id pool = some r) : PoolOp env pool r.2.2.2
  | removeTx {pool pool' : TxMemoryPool κ η β φ} {it : TxByFeeEntry φ η} {txMeta : TxpoolTxMeta}
      (hit : it ∈ pool.txsByFeeAndReceiveTime) (hmeta : getTxpoolTxMeta it.2 pool.txpool = some txMeta)
      (h : Arqma.Cryptonote.removeTx env.parseTx it.2 txMeta it pool = some pool') : PoolOp env pool pool'
  | prune {pool : TxMemoryPool κ η β φ} (now : ℕ) : PoolOp env pool (Arqma.Cryptonote.prune env.parseTx now pool)

omit [LinearOrder η] [LinearOrder φ] in
/-- The pool with empty tables and indices, as the constructor leaves it. -/
theorem PoolIndexInv.empty (maxWeight : ℕ) (timedOut : List η) :
    PoolIndexInv parse (⟨[], [], [], 0, maxWeight, timedOut⟩ : TxMemoryPool κ η β φ) where
  ids_nodup := List.nodup_nil
  sorted_perm := List.Perm.nil
  weight_eq := rfl
  parses _ he := absurd he List.not_mem_nil
  spent_map := Buckets.SetMap.nil
  spenders k id := by simp [Buckets.itemsOf]
  one_not_kept _ _ he := absurd he List.not_mem_nil

theorem PoolIndexInv.poolOp {env : TxPoolEnv κ η β φ} (hinv : PoolIndexInv env.parseTx pool)
    {pool' : TxMemoryPool κ η β φ} (hop : PoolOp env pool pool') : PoolIndexInv env.parseTx pool' := by
  cases hop with
  | addTx hpre now blobSize opts hardForkVersion => exact hinv.addTx hpre now blobSize opts hardForkVersion
  | takeTx h => exact hinv.takeTx h
  | removeTx hit hmeta h =>
    obtain ⟨pool'', hremove, hinv', -⟩ := hinv.removeTx hit hmeta
    rw [h, Option.some.injEq] at hremove
    exact hremove ▸ hinv'
  | prune now => exact hinv.prune now

theorem PoolIndexInv.of_reachable {env : TxPoolEnv κ η β φ} (hinv : PoolIndexInv env.parseTx pool)
    {pool' : TxMemoryPool κ η β φ} (hrun : Relation.ReflTransGen (PoolOp env) pool pool') :
    PoolIndexInv env.parseTx pool' := by
  induction hrun with
  | refl => exact hinv
  | tail _ hop ih => exact ih.poolOp hop

/-- Along every run of the pool from the empty one, `m_spent_key_images` maps each key
image, with no empty set, to the ids of the pool transactions that spend it; the sorted
container holds one entry per pool transaction; `m_txpool_weight` is the sum of their
weights; two transactions spend one key image only if one of them came from a block; and
an `add_tx` that returns `false` changes no index and, in the pool tables, nothing but
`double_spend_seen` flags. -/
theorem txPool_index_invariant {env : TxPoolEnv κ η β φ} {maxWeight : ℕ} {timedOut : List η}
    (hrun : Relation.ReflTransGen (PoolOp env) ⟨[], [], [], 0, maxWeight, timedOut⟩ pool) :
    Buckets.SetMap pool.spentKeyImages ∧
      (∀ k id, id ∈ Buckets.itemsOf k pool.spentKeyImages ↔
        ∃ e ∈ pool.txpool, e.1 = id ∧ SpendsKeyImage env.parseTx e k) ∧
      (pool.txpool.map Prod.fst).Nodup ∧
      List.Perm (pool.txsByFeeAndReceiveTime.map Prod.snd) (pool.txpool.map Prod.fst) ∧
      pool.txpoolWeight = (pool.txpool.map fun e => e.2.1.weight).sum ∧
      (∀ k, ∀ e₁ ∈ pool.txpool, ∀ e₂ ∈ pool.txpool, e₁.1 ≠ e₂.1 → SpendsKeyImage env.parseTx e₁ k →
        SpendsKeyImage env.parseTx e₂ k → e₁.2.1.keptByBlock = true ∨ e₂.2.1.keptByBlock = true) ∧
      ∀ (tx : Transaction κ) (id : η) (blob : β) (txWeight now blobSize : ℕ) (opts : TxPoolOptions)
        (hardForkVersion : ℕ), AddTxPre env.parseTx tx id blob txWeight pool →
        (addTx env now tx id blob blobSize txWeight opts hardForkVersion pool).1 = false →
        ∃ txpool', (addTx env now tx id blob blobSize txWeight opts hardForkVersion pool).2 =
          { pool with txpool := txpool' } ∧ txpool'.map withoutSeen = pool.txpool.map withoutSeen := by
  have hinv := (PoolIndexInv.empty maxWeight timedOut).of_reachable hrun
  refine ⟨hinv.spent_map, hinv.spenders, hinv.ids_nodup, hinv.sorted_perm, hinv.weight_eq, ?_, ?_⟩
  · intro k e₁ he₁ e₂ he₂ hne h₁ h₂
    by_contra hkept
    simp only [not_or, Bool.not_eq_true] at hkept
    exact hne (hinv.one_not_kept k e₁ he₁ e₂ he₂ h₁ h₂ hkept.1 hkept.2)
  · intro tx id blob txWeight now blobSize opts hardForkVersion hpre hfalse
    exact addTx_false hinv hpre hfalse

/-- An environment in which every check outside the pool passes, fees are zero, and the
blob `b` is a transfer spending the key images `7` and `b`. -/
def keyImageSevenEnv : TxPoolEnv ℕ ℕ ℕ ℕ where
  getTxMinerFee _ _ := (true, 0, 0)
  checkFee _ _ _ _ _ := true
  haveDuplicatedNonStandardTx _ _ _ := false
  checkTxOutputs _ := true
  checkTxInputs _ _ _ := true
  feePerByte fee _ := fee
  parseTx b := some ⟨3, [.toKey 7, .toKey b], true⟩

/-- The pool after transaction `1`, the blob `5`, went in. -/
def oneTxPool : TxMemoryPool ℕ ℕ ℕ ℕ :=
  (addTx keyImageSevenEnv 0 ⟨3, [.toKey 7, .toKey 5], true⟩ 1 5 1 10 {} 16 ⟨[], [], [], 0, 100, []⟩).2

/-- The pool after transaction `2`, the blob `6`, spending the key image `7` again. -/
def doubleSpendPool : TxMemoryPool ℕ ℕ ℕ ℕ :=
  (addTx keyImageSevenEnv 0 ⟨3, [.toKey 7, .toKey 6], true⟩ 2 6 1 10 {} 16 oneTxPool).2

/-- The pool after transaction `1` is taken back out. -/
def takenPool : TxMemoryPool ℕ ℕ ℕ ℕ :=
  ((takeTx keyImageSevenEnv.parseTx 1 doubleSpendPool).map fun r => r.2.2.2).getD doubleSpendPool

theorem takeTx_doubleSpendPool :
    ∃ r, takeTx keyImageSevenEnv.parseTx 1 doubleSpendPool = some r ∧ r.2.2.2 = takenPool := by
  have hsome : (takeTx keyImageSevenEnv.parseTx 1 doubleSpendPool).isSome = true := by decide
  obtain ⟨r, htake⟩ := Option.isSome_iff_exists.mp hsome
  exact ⟨r, htake, by rw [takenPool, htake]; rfl⟩

/-- A run that adds a transaction, refuses a second one spending its key image `7`, and
takes the first back out: the pool ends empty, with no key image and no weight. -/
theorem txPool_index_invariant_refused_then_taken :
    (addTx keyImageSevenEnv 0 ⟨3, [.toKey 7, .toKey 6], true⟩ 2 6 1 10 {} 16 oneTxPool).1 = false ∧
      Relation.ReflTransGen (PoolOp keyImageSevenEnv) ⟨[], [], [], 0, 100, []⟩ takenPool ∧
      takenPool.txpool = [] ∧ takenPool.spentKeyImages = [] ∧
      Buckets.SetMap takenPool.spentKeyImages ∧ takenPool.txpoolWeight = 0 := by
  obtain ⟨r, htake, hr⟩ := takeTx_doubleSpendPool
  have hadd : Relation.ReflTransGen (PoolOp keyImageSevenEnv) ⟨[], [], [], 0, 100, []⟩ oneTxPool :=
    .single (PoolOp.addTx ⟨rfl, by decide, by decide, by decide⟩ 0 1 {} 16)
  have hrefused : Relation.ReflTransGen (PoolOp keyImageSevenEnv) ⟨[], [], [], 0, 100, []⟩ doubleSpendPool :=
    hadd.tail (PoolOp.addTx ⟨rfl, by decide, by decide, by decide⟩ 0 1 {} 16)
  have hrun : Relation.ReflTransGen (PoolOp keyImageSevenEnv) ⟨[], [], [], 0, 100, []⟩ takenPool :=
    hr ▸ hrefused.tail (PoolOp.takeTx htake)
  have hempty : takenPool.txpool = [] := by decide
  have hinv := txPool_index_invariant hrun
  refine ⟨by decide, hrun, hempty, by decide, hinv.1, ?_⟩
  rw [hinv.2.2.2.2.1, hempty]
  rfl

/-- After one transaction spending the key image `7` went in, a second one spending it is
refused, and the refusal marks the first one's meta `double_spend_seen` in the pool
table. -/
theorem addTx_false_marks_double_spend :
    (addTx keyImageSevenEnv 0 ⟨3, [.toKey 7, .toKey 6], true⟩ 2 6 1 10 {} 16
        (addTx keyImageSevenEnv 0 ⟨3, [.toKey 7, .toKey 5], true⟩ 1 5 1 10 {} 16 ⟨[], [], [], 0, 100, []⟩).2).1 = false ∧
      (addTx keyImageSevenEnv 0 ⟨3, [.toKey 7, .toKey 6], true⟩ 2 6 1 10 {} 16
        (addTx keyImageSevenEnv 0 ⟨3, [.toKey 7, .toKey 5], true⟩ 1 5 1 10 {} 16 ⟨[], [], [], 0, 100, []⟩).2).2.txpool ≠
        (addTx keyImageSevenEnv 0 ⟨3, [.toKey 7, .toKey 5], true⟩ 1 5 1 10 {} 16 ⟨[], [], [], 0, 100, []⟩).2.txpool := by
  decide

end Run

end Arqma.Cryptonote
