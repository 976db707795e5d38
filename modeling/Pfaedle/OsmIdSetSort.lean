import Pfaedle.LoopRules
import Pfaedle.MultiwayMerge
import Pfaedle.OsmIdSet
import Pfaedle.SortedBlocks

set_option autoImplicit false

/-!
# The external merge sort of `osm_id_set::sort`

Sizes are counted in words here: `v`, `t` and `b` words fill a part buffer, a part and a block.
-/
namespace Pfaedle.IdSet
open Osm SortedBlocks MultiwayMerge

theorem qsort_perm (ws : List UInt64) : (qsort ws).Perm ws := List.mergeSort_perm ws _

theorem qsort_length (ws : List UInt64) : (qsort ws).length = ws.length :=
  List.length_mergeSort ws

theorem qsort_sorted (ws : List UInt64) : (qsort ws).Pairwise (· ≤ ·) := by
  have h : (qsort ws).Pairwise fun a b => decide (a ≤ b) = true := by
    apply List.pairwise_mergeSort
    · intro a b c hab hbc
      simp only [decide_eq_true_eq] at hab hbc ⊢
      exact le_trans hab hbc
    · intro a b
      simpa using le_total a b
  simpa using h

section parts
variable {sizes : BufferSizes} {partsBufSize t v k : ℕ} {ws : List UInt64} {ps : Parts}

/-- The first `k` parts have been sorted in place and their heads lie in the part buffers. -/
structure PartsSorted (t v : ℕ) (ws : List UInt64) (k : ℕ) (ps : Parts) : Prop where
  length : ps.file.words.length = ws.length
  done : ∀ j, j < k → block t ps.file.words j = qsort (block t ws j)
  todo : ∀ j, k ≤ j → block t ps.file.words j = block t ws j
  partsize : ∀ j, j < k → ps.partsize j = 8 * (block t ws j).length
  partbufs : ∀ j, j < k → ∀ i, i < v → i < (block t ws j).length →
    some (ps.partbufs j i) = (qsort (block t ws j))[i]?

theorem sortPart_eq (partsBufSize : ℕ) (ps : Parts) (hsort : sizes.sortBufferS = 8 * t) (hbuf : partsBufSize = 8 * v)
    (hk : k * t ≤ ps.file.words.length) :
    ∃ pos, sortPart sizes partsBufSize ps k =
      let part := block t ps.file.words k
      { file := ⟨ps.file.words.take (k * t) ++ qsort part ++
          ps.file.words.drop (k * t + (qsort part).length), pos⟩
        buf := ps.buf.fill (qsort part)
        partbufs := Function.update ps.partbufs k
          ((ps.partbufs k).fill ((qsort part).take (min part.length v)))
        partsize := Function.update ps.partsize k (8 * part.length) } := by
  have hread : ((ps.file.lseek (sizes.sortBufferS * k)).read sizes.sortBufferS).1 =
      block t ps.file.words k := by
    rw [hsort, Nat.mul_assoc, TmpFile.read_lseek, block, Nat.mul_comm t k]
  have hmin : min (8 * (block t ps.file.words k).length) (8 * v) =
      8 * min (block t ps.file.words k).length v := by omega
  have hdiv : 8 * t * k / 8 = k * t := by
    rw [Nat.mul_assoc, Nat.mul_comm t k]
    omega
  have hlen : (qsort (block t ps.file.words k)).length = (block t ps.file.words k).length :=
    qsort_length _
  refine ⟨8 * t * k + 8 * (qsort (block t ps.file.words k)).length, ?_⟩
  simp only [sortPart, hread, hbuf, hmin]
  rw [Buffer.words_fill _ _ (by omega), Buffer.words_fill _ _ (by omega), ← hlen, List.take_length]
  simp only [TmpFile.write, TmpFile.lseek, TmpFile.read, hsort, hdiv,
    List.takeD_eq_take _ hk]

theorem sortPart_sorted (hsort : sizes.sortBufferS = 8 * t) (hbuf : partsBufSize = 8 * v)
    (hk : k * t ≤ ws.length) (h : PartsSorted t v ws k ps) :
    PartsSorted t v ws (k + 1) (sortPart sizes partsBufSize ps k) := by
  have hk' : k * t ≤ ps.file.words.length := by rw [h.length]; exact hk
  obtain ⟨pos, heq⟩ := sortPart_eq partsBufSize ps hsort hbuf hk'
  rw [heq, h.todo k (Nat.le_refl k)]
  have hlen : (qsort (block t ws k)).length = (block t ps.file.words k).length := by
    rw [qsort_length, h.todo k (Nat.le_refl k)]
  constructor
  · have hbound : (block t ps.file.words k).length = _ := length_block k
    have hlength := h.length
    simp only [List.length_append, List.length_take, List.length_drop, hlen]
    rw [Nat.min_eq_left hk']
    omega
  · intro j hj
    simp only [block_splice _ hk' hlen]
    split
    · rename_i hjk
      rw [hjk]
    · exact h.done j (by omega)
  · intro j hj
    simp only [block_splice _ hk' hlen]
    rw [if_neg (by omega)]
    exact h.todo j (by omega)
  · intro j hj
    by_cases hjk : j = k
    · subst hjk
      exact Function.update_self _ _ _
    · change Function.update _ _ _ j = _
      rw [Function.update_of_ne hjk]
      exact h.partsize j (by omega)
  · intro j hj i hi hib
    by_cases hjk : j = k
    · subst hjk
      dsimp only
      rw [Function.update_self, Buffer.fill_getElem?, List.getElem?_take_of_lt (by omega)]
      rw [List.length_take, qsort_length]
      omega
    · dsimp only
      rw [Function.update_of_ne hjk]
      exact h.partbufs j (by omega) i hi hib

end parts

section window
variable {v c : ℕ} {part : List UInt64} {buf : Buffer}

/-- The part buffer holds the `v` words of its part around position `c`. -/
def Windowed (v c : ℕ) (part : List UInt64) (buf : Buffer) : Prop :=
  ∀ i, i < v → c / v * v + i < part.length → some (buf i) = part[c / v * v + i]?

theorem Windowed.load (h : Windowed v c part buf) (hv : 0 < v) (hc : c < part.length) :
    some (buf.load (8 * c % (8 * v))) = part[c]? := by
  have hsplit : c / v * v + c % v = c := Nat.div_add_mod' c v
  have hload := h (c % v) (Nat.mod_lt c hv) (by rw [hsplit]; exact hc)
  rw [hsplit] at hload
  rw [← hload, Buffer.load, Nat.mul_mod_mul_left, Nat.mul_div_cancel_left _ (by decide)]

theorem Windowed.next (h : Windowed v c part buf) (hmod : (c + 1) % v ≠ 0) :
    Windowed v (c + 1) part buf := by
  have hdiv : (c + 1) / v = c / v := by
    rw [Nat.succ_div, if_neg fun hd => hmod (Nat.mod_eq_zero_of_dvd hd), Nat.add_zero]
  intro i hi hlt
  rw [hdiv] at hlt ⊢
  exact h i hi hlt

theorem windowed_fill {t : ℕ} {file : List UInt64} {p : ℕ} (hmod : c % v = 0)
    (buf : Buffer) : Windowed v c (block t file p)
      (buf.fill ((file.drop (t * p + c)).take v)) := by
  have hdiv : c / v * v = c := Nat.div_mul_cancel (Nat.dvd_of_mod_eq_zero hmod)
  intro i hi hlt
  have hlen : (block t file p).length = _ := length_block p
  have hcomm : p * t = t * p := Nat.mul_comm p t
  rw [hdiv] at hlt ⊢
  rw [Buffer.fill_getElem?, List.getElem?_take_of_lt hi, List.getElem?_drop,
    block_getElem? _ _ (by omega)]
  · congr 1
    omega
  · rw [List.length_take, List.length_drop]
    omega

end window

theorem succ_mod_eq_zero_iff {k t : ℕ} (ht : 0 < t) : (k + 1) % t = 0 ↔ k % t + 1 = t := by
  cases t with
  | zero => omega
  | succ t => rw [Nat.succ_mod_succ_eq_zero_iff, Nat.add_right_cancel_iff]

section written
variable {t total k : ℕ} {out : List UInt64} {newFile : TmpFile} {buf : Buffer}

/-- What has been merged so far lies in the new file and, from its end on, in the buffer. -/
structure Written (t total k : ℕ) (out : List UInt64) (newFile : TmpFile) (buf : Buffer) :
    Prop where
  words : newFile.words ++ buf.words (8 * (k - newFile.words.length)) = out
  length : newFile.words.length = if k = total then total else k / t * t
  pos : newFile.pos = 8 * newFile.words.length

theorem Written.words_store (h : Written t total k out newFile buf) (hk : k < total)
    (word : UInt64) :
    newFile.words ++ (buf.store (8 * k % (8 * t)) word).words (8 * k % (8 * t) + 8) =
      out ++ [word] := by
  have hlen := h.length
  have hsplit := Nat.div_add_mod' k t
  rw [if_neg (by omega)] at hlen
  have hmod : k - newFile.words.length = k % t := by omega
  rw [Nat.mul_mod_mul_left, Buffer.words_store, ← List.append_assoc, ← hmod, h.words]

theorem Written.flush (h : Written t total k out newFile buf) (hk : k < total)
    (hout : out.length = k) (word : UInt64)
    (hfull : 8 * k % (8 * t) = 8 * t - 8 ∨ 8 * k = 8 * total - 8) (ht : 0 < t) :
    Written t total (k + 1) (out ++ [word])
      (newFile.write ((buf.store (8 * k % (8 * t)) word).words (8 * k % (8 * t) + 8)))
      (buf.store (8 * k % (8 * t)) word) := by
  have hstore := h.words_store hk word
  rw [TmpFile.write_end _ _ h.pos, hstore]
  constructor
  · simp [hout, Buffer.words]
  · simp only [List.length_append, List.length_singleton, hout]
    split
    · assumption
    · rename_i hne
      rw [Nat.mul_mod_mul_left] at hfull
      have hlast : k % t + 1 = t := by omega
      have hdvd : (k + 1) % t = 0 := (succ_mod_eq_zero_iff ht).2 hlast
      exact (Nat.div_mul_cancel (Nat.dvd_of_mod_eq_zero hdvd)).symm
  · rfl

theorem Written.keep (h : Written t total k out newFile buf) (hk : k < total)
    (hout : out.length = k) (word : UInt64)
    (hfull : ¬ (8 * k % (8 * t) = 8 * t - 8 ∨ 8 * k = 8 * total - 8)) (ht : 0 < t) :
    Written t total (k + 1) (out ++ [word]) newFile (buf.store (8 * k % (8 * t)) word) := by
  have hstore := h.words_store hk word
  have hlen := h.length
  have hsplit := Nat.div_add_mod' k t
  have hmod := Nat.mod_lt k ht
  rw [Nat.mul_mod_mul_left] at hfull hstore ⊢
  rw [if_neg (by omega)] at hlen
  have hdiv : (k + 1) / t = k / t := by
    have hdvd : (k + 1) % t ≠ 0 := by
      rw [Ne, succ_mod_eq_zero_iff ht]
      omega
    rw [Nat.succ_div, if_neg fun hd => hdvd (Nat.mod_eq_zero_of_dvd hd), Nat.add_zero]
  constructor
  · rw [← hstore]
    congr 2
    omega
  · rw [if_neg (by omega), hdiv, hlen]
  · exact h.pos

end written

section smallest
variable {partsBufSize n : ℕ} {partsize : ℕ → ℕ} {m : Merge}

def current (partsBufSize : ℕ) (m : Merge) (j : ℕ) : UInt64 :=
  (m.partbufs j).load (m.partpos j % partsBufSize)

/-- What the inner loop has found among the first `n` parts. -/
def Smallest (partsBufSize : ℕ) (partsize : ℕ → ℕ) (m : Merge) (n : ℕ) :
    UInt64 × Option ℕ → Prop
  | (smallest, none) => smallest = -1 ∧ ∀ j, j < n → m.partpos j = partsize j
  | (smallest, some p) => p < n ∧ m.partpos p ≠ partsize p ∧
      smallest = current partsBufSize m p ∧
      ∀ j, j < n → m.partpos j ≠ partsize j → smallest ≤ current partsBufSize m j

theorem smallest_skip {acc : UInt64 × Option ℕ} (h : Smallest partsBufSize partsize m n acc)
    (hempty : m.partpos n = partsize n) : Smallest partsBufSize partsize m (n + 1) acc := by
  obtain ⟨smallest, smallestP⟩ := acc
  cases smallestP with
  | none =>
    refine ⟨h.1, ?_⟩
    intro j hj
    by_cases hjn : j = n
    · rw [hjn, hempty]
    · exact h.2 j (by omega)
  | some p =>
    refine ⟨Nat.lt_succ_of_lt h.1, h.2.1, h.2.2.1, ?_⟩
    intro j hj hne
    have hjn : j ≠ n := fun he => hne (he ▸ hempty)
    exact h.2.2.2 j (by omega) hne

theorem smallest_hit {acc : UInt64 × Option ℕ} (h : Smallest partsBufSize partsize m n acc)
    (hne : m.partpos n ≠ partsize n) (hle : current partsBufSize m n ≤ acc.1) :
    Smallest partsBufSize partsize m (n + 1) (current partsBufSize m n, some n) := by
  refine ⟨Nat.lt_succ_self n, hne, rfl, ?_⟩
  intro j hj hjne
  by_cases hjn : j = n
  · rw [hjn]
  · obtain ⟨smallest, smallestP⟩ := acc
    cases smallestP with
    | none => exact absurd (h.2 j (by omega)) hjne
    | some p => exact le_trans hle (h.2.2.2 j (by omega) hjne)

theorem smallest_miss {acc : UInt64 × Option ℕ} (h : Smallest partsBufSize partsize m n acc)
    (hlt : ¬ current partsBufSize m n ≤ acc.1) :
    Smallest partsBufSize partsize m (n + 1) acc := by
  obtain ⟨smallest, smallestP⟩ := acc
  cases smallestP with
  | none =>
    obtain ⟨rfl, -⟩ := h
    exact absurd (UInt64.le_iff_toNat_le.2 (by
      have hbound := (current partsBufSize m n).toNat_lt
      have htop : (-1 : UInt64).toNat = 2 ^ 64 - 1 := rfl
      simp only [htop]
      omega)) hlt
  | some p =>
    refine ⟨Nat.lt_succ_of_lt h.1, h.2.1, h.2.2.1, ?_⟩
    intro j hj hne
    by_cases hjn : j = n
    · rw [hjn]
      exact le_of_not_ge hlt
    · exact h.2.2.2 j (by omega) hne

theorem findSmallest_spec (n : ℕ) :
    Smallest partsBufSize partsize m n (findSmallest partsBufSize partsize m n) := by
  apply LoopRules.foldl_range _ (fun n acc => Smallest partsBufSize partsize m n acc)
  · exact ⟨rfl, by simp⟩
  · intro k acc _ h
    dsimp only
    split
    · rename_i hempty
      exact smallest_skip h hempty
    · rename_i hne
      split
      · rename_i hle
        exact smallest_hit h hne hle
      · rename_i hlt
        exact smallest_miss h hlt

end smallest

section merge
variable {sizes : BufferSizes} {partsBufSize t v b parts k : ℕ} {file : List UInt64}
  {partsize c : ℕ → ℕ} {m : Merge} {out : List UInt64}

def runs (t : ℕ) (file : List UInt64) (c : ℕ → ℕ) (j : ℕ) : List UInt64 :=
  (block t file j).drop (c j)

/-- After `k` rounds part `j` has given away its first `c j` words. -/
structure MergeInvariant (t v b parts : ℕ) (file : List UInt64) (k : ℕ) (c : ℕ → ℕ)
    (out : List UInt64) (m : Merge) : Prop where
  partpos : ∀ j, j < parts → m.partpos j = 8 * c j
  bound : ∀ j, j < parts → c j ≤ (block t file j).length
  windowed : ∀ j, j < parts → Windowed v (c j) (block t file j) (m.partbufs j)
  unread : m.file.words = file
  merging : Merging file parts (runs t file c) out
  length : out.length = k
  written : Written t file.length k out m.newFile m.buf
  blockEnds : BlockEnds b out m.blockEnds

theorem MergeInvariant.partpos_ne_iff (h : MergeInvariant t v b parts file k c out m)
    (hsize : ∀ j, j < parts → partsize j = 8 * (block t file j).length) {j : ℕ}
    (hj : j < parts) : m.partpos j ≠ partsize j ↔ c j < (block t file j).length := by
  have hbound := h.bound j hj
  rw [h.partpos j hj, hsize j hj]
  omega

theorem MergeInvariant.head? (h : MergeInvariant t v b parts file k c out m) (hv : 0 < v)
    (hbuf : partsBufSize = 8 * v) {j : ℕ} (hj : j < parts)
    (hc : c j < (block t file j).length) :
    (runs t file c j).head? = some (current partsBufSize m j) := by
  rw [runs, List.head?_drop, current, h.partpos j hj, hbuf, (h.windowed j hj).load hv hc]

theorem MergeInvariant.exists_smallest (h : MergeInvariant t v b parts file k c out m)
    (hv : 0 < v) (hbuf : partsBufSize = 8 * v)
    (hsize : ∀ j, j < parts → partsize j = 8 * (block t file j).length) (hk : k < file.length) :
    ∃ smallest p, findSmallest partsBufSize partsize m parts = (smallest, some p) ∧
      p < parts ∧ (block t file p)[c p]? = some smallest ∧
      ∀ j, j < parts → ∀ y, (runs t file c j).head? = some y → smallest ≤ y := by
  have hspec : Smallest partsBufSize partsize m parts _ := findSmallest_spec parts
  generalize findSmallest partsBufSize partsize m parts = acc at hspec
  obtain ⟨smallest, smallestP⟩ := acc
  cases smallestP with
  | none =>
    obtain ⟨p, hp, hne⟩ := h.merging.exists_run (by rw [h.length]; exact hk)
    have hempty := hspec.2 p hp
    refine absurd hempty ((h.partpos_ne_iff hsize hp).2 ?_)
    by_contra hge
    exact hne (List.drop_of_length_le (by omega))
  | some p =>
    obtain ⟨hp, hne, hsmallest, hleast⟩ := hspec
    have hc := (h.partpos_ne_iff hsize hp).1 hne
    refine ⟨smallest, p, rfl, hp, ?_, ?_⟩
    · rw [← List.head?_drop, hsmallest]
      exact h.head? hv hbuf hp hc
    · intro j hj y hy
      have hcj : c j < (block t file j).length := by
        by_contra hge
        rw [runs, List.drop_of_length_le (by omega)] at hy
        simp at hy
      rw [h.head? hv hbuf hj hcj] at hy
      rw [← Option.some.inj hy]
      exact hleast j hj ((h.partpos_ne_iff hsize hj).2 hcj)

theorem runs_update {p : ℕ} :
    Function.update (runs t file c) p ((block t file p).drop (c p + 1)) =
      runs t file (Function.update c p (c p + 1)) := by
  funext j
  by_cases hjp : j = p
  · subst hjp
    rw [Function.update_self, runs, Function.update_self]
  · rw [Function.update_of_ne hjp, runs, runs, Function.update_of_ne hjp]

theorem MergeInvariant.merging_take (h : MergeInvariant t v b parts file k c out m) {p : ℕ}
    (hp : p < parts) {smallest : UInt64} (hat : (block t file p)[c p]? = some smallest)
    (hleast : ∀ j, j < parts → ∀ y, (runs t file c j).head? = some y → smallest ≤ y) :
    Merging file parts (runs t file (Function.update c p (c p + 1))) (out ++ [smallest]) := by
  rw [← runs_update]
  apply h.merging.take hp _ hleast
  obtain ⟨hlt, hget⟩ := List.getElem?_eq_some_iff.1 hat
  rw [runs, List.drop_eq_getElem_cons hlt, hget]

/-- What becomes of the part buffers when part `p` gives away a word. -/
theorem MergeInvariant.windowed_refill (h : MergeInvariant t v b parts file k c out m) {p : ℕ}
    (hmod : (c p + 1) % v = 0) (j : ℕ) (hj : j < parts) :
    Windowed v (Function.update c p (c p + 1) j) (block t file j)
      (Function.update m.partbufs p
        ((m.partbufs p).fill ((file.drop (t * p + (c p + 1))).take v)) j) := by
  by_cases hjp : j = p
  · subst hjp
    rw [Function.update_self, Function.update_self]
    exact windowed_fill hmod _
  · rw [Function.update_of_ne hjp, Function.update_of_ne hjp]
    exact h.windowed j hj

theorem MergeInvariant.windowed_next (h : MergeInvariant t v b parts file k c out m) {p : ℕ}
    (hmod : (c p + 1) % v ≠ 0) (j : ℕ) (hj : j < parts) :
    Windowed v (Function.update c p (c p + 1) j) (block t file j) (m.partbufs j) := by
  by_cases hjp : j = p
  · subst hjp
    rw [Function.update_self]
    exact (h.windowed j hj).next hmod
  · rw [Function.update_of_ne hjp]
    exact h.windowed j hj

theorem MergeInvariant.partpos_update (h : MergeInvariant t v b parts file k c out m) {p : ℕ}
    (hp : p < parts) (j : ℕ) (hj : j < parts) :
    Function.update m.partpos p (m.partpos p + 8) j = 8 * Function.update c p (c p + 1) j := by
  by_cases hjp : j = p
  · subst hjp
    rw [Function.update_self, Function.update_self, h.partpos j hj, Nat.mul_add]
  · rw [Function.update_of_ne hjp, Function.update_of_ne hjp, h.partpos j hj]

theorem MergeInvariant.bound_update (h : MergeInvariant t v b parts file k c out m) {p : ℕ}
    (hlt : c p < (block t file p).length) (j : ℕ) (hj : j < parts) :
    Function.update c p (c p + 1) j ≤ (block t file j).length := by
  by_cases hjp : j = p
  · subst hjp
    rw [Function.update_self]
    exact hlt
  · rw [Function.update_of_ne hjp]
    exact h.bound j hj

theorem mergeStep_invariant (h : MergeInvariant t v b parts file k c out m)
    (hsort : sizes.sortBufferS = 8 * t) (hbuf : partsBufSize = 8 * v)
    (hblock : sizes.bufferS = 8 * b) (ht : 0 < t) (hv : 0 < v) (hb : 0 < b)
    (hsize : ∀ j, j < parts → partsize j = 8 * (block t file j).length) (hk : k < file.length) :
    ∃ m', mergeStep sizes partsBufSize partsize parts (8 * file.length) m (8 * k) = some m' ∧
      ∃ c' out', MergeInvariant t v b parts file (k + 1) c' out' m' := by
  obtain ⟨smallest, p, hfind, hp, hat, hleast⟩ := h.exists_smallest hv hbuf hsize hk
  have hlt : c p < (block t file p).length := (List.getElem?_eq_some_iff.1 hat).1
  have hmerging := h.merging_take hp hat hleast
  have hlength : (out ++ [smallest]).length = k + 1 := by
    rw [List.length_append, h.length, List.length_singleton]
  have hwritten : Written t file.length (k + 1) (out ++ [smallest])
      (if 8 * k % sizes.sortBufferS = sizes.sortBufferS - 8 ∨ 8 * k = 8 * file.length - 8 then
        m.newFile.write ((m.buf.store (8 * k % sizes.sortBufferS) smallest).words
          (8 * k % sizes.sortBufferS + 8))
      else m.newFile)
      (m.buf.store (8 * k % sizes.sortBufferS) smallest) := by
    rw [hsort]
    split
    · rename_i hfull
      exact h.written.flush hk h.length smallest hfull ht
    · rename_i hfull
      exact h.written.keep hk h.length smallest hfull ht
  have hends : BlockEnds b (out ++ [smallest])
      (if (8 * k + 8) % sizes.bufferS = 0 then m.blockEnds ++ [smallest] else m.blockEnds) := by
    have hmod : (8 * k + 8) % sizes.bufferS = 8 * ((k + 1) % b) := by
      rw [hblock, ← Nat.mul_mod_mul_left, Nat.mul_add]
    split
    · exact h.blockEnds.append_end hb smallest (by rw [h.length]; omega)
    · exact h.blockEnds.append_inner hb smallest (by rw [h.length]; omega)
  have hpos : Function.update m.partpos p (m.partpos p + 8) p = 8 * (c p + 1) := by
    rw [h.partpos_update hp p hp, Function.update_self]
  have hrefill : 8 * (c p + 1) % partsBufSize = 8 * ((c p + 1) % v) := by
    rw [hbuf, Nat.mul_mod_mul_left]
  have hoffset : sizes.sortBufferS * p + 8 * (c p + 1) = 8 * (t * p + (c p + 1)) := by
    rw [hsort, Nat.mul_assoc, ← Nat.mul_add]
  simp only [mergeStep, hfind, hpos, hrefill, hoffset]
  split
  · rename_i hmod
    refine ⟨_, rfl, Function.update c p (c p + 1), out ++ [smallest], ?_⟩
    constructor
    · exact h.partpos_update hp
    · exact h.bound_update hlt
    · rw [hbuf, TmpFile.read_lseek, h.unread]
      exact h.windowed_refill (by omega)
    · exact h.unread
    · exact hmerging
    · exact hlength
    · exact hwritten
    · exact hends
  · rename_i hmod
    refine ⟨_, rfl, Function.update c p (c p + 1), out ++ [smallest], ?_⟩
    constructor
    · exact h.partpos_update hp
    · exact h.bound_update hlt
    · exact h.windowed_next (by omega)
    · exact h.unread
    · exact hmerging
    · exact hlength
    · exact hwritten
    · exact hends

theorem Written.finished {newFile : TmpFile} {buf : Buffer}
    (h : Written t k k out newFile buf) : newFile.words = out := by
  have hlength := h.length
  rw [if_pos rfl] at hlength
  have hwords := h.words
  rw [hlength, Nat.sub_self] at hwords
  simpa [Buffer.words] using hwords

end merge

section sort
variable {sizes : BufferSizes} {t v parts : ℕ} {ws : List UInt64} {ps : Parts}

theorem sortParts_sorted {partsBufSize : ℕ} (hsort : sizes.sortBufferS = 8 * t)
    (hbuf : partsBufSize = 8 * v) (hparts : parts = ws.length / t + 1) (ps : Parts)
    (hfile : ps.file.words = ws) :
    PartsSorted t v ws parts ((List.range parts).foldl (sortPart sizes partsBufSize) ps) := by
  apply LoopRules.foldl_range _ (PartsSorted t v ws)
  · subst hfile
    exact ⟨rfl, by simp, fun _ _ => rfl, by simp, by simp⟩
  · intro k ps hk h
    apply sortPart_sorted hsort hbuf _ h
    calc k * t ≤ ws.length / t * t := Nat.mul_le_mul_right t (by omega)
      _ ≤ ws.length := Nat.div_mul_le_self _ _

theorem flatMap_parts (ht : 0 < t) (hparts : parts = ws.length / t + 1) :
    (List.range parts).flatMap (block t ws) = ws := by
  have hlt : ws.length < t * (ws.length / t + 1) := Nat.lt_mul_div_succ ws.length ht
  rw [flatMap_block, hparts, Nat.mul_comm, List.take_of_length_le (Nat.le_of_lt hlt)]

theorem PartsSorted.perm (h : PartsSorted t v ws parts ps) (ht : 0 < t)
    (hparts : parts = ws.length / t + 1) : ws.Perm ps.file.words := by
  have hparts' : parts = ps.file.words.length / t + 1 := by rw [h.length, hparts]
  rw [← flatMap_parts ht hparts, ← flatMap_parts ht hparts']
  apply List.Perm.flatMap_left
  intro j hj
  rw [h.done j (List.mem_range.1 hj)]
  exact (qsort_perm _).symm

theorem PartsSorted.mergeInvariant {b : ℕ} (h : PartsSorted t v ws parts ps) (ht : 0 < t)
    (hparts : parts = ws.length / t + 1) :
    MergeInvariant t v b parts ps.file.words 0 (fun _ => 0) []
      ⟨ps.file, ps.buf, ps.partbufs, fun _ => 0, openTmpFile, []⟩ := by
  constructor
  · exact fun _ _ => rfl
  · exact fun _ _ => Nat.zero_le _
  · intro j hj i hi hlt
    rw [Nat.zero_div, Nat.zero_mul, Nat.zero_add] at hlt ⊢
    rw [h.done j hj] at hlt ⊢
    exact h.partbufs j hj i hi (by rwa [qsort_length] at hlt)
  · rfl
  · have hruns : runs t ps.file.words (fun _ => 0) = block t ps.file.words := rfl
    rw [hruns]
    apply merging_nil
    · have hparts' : parts = ps.file.words.length / t + 1 := by rw [h.length, hparts]
      rw [flatMap_parts ht hparts']
    · intro j hj
      rw [h.done j hj]
      exact qsort_sorted _
  · rfl
  · refine ⟨by simp [openTmpFile, Buffer.words], ?_, rfl⟩
    rw [Nat.zero_div, Nat.zero_mul]
    split
    · assumption
    · rfl
  · exact blockEnds_nil b

theorem sort_sorted (sizes : BufferSizes) (u : Uninit) (s : OsmIdSet)
    (hfsize : s.fsize = 8 * s.file.words.length) : ∃ file blockEnds,
    sort sizes u s = some { s with file, sorted := true, blockEnds } ∧
    s.file.words.Perm file.words ∧ file.words.Pairwise (· ≤ ·) ∧
    BlockEnds (sizes.bufferS / 8) file.words blockEnds := by
  obtain ⟨t, ht⟩ := sizes.sortBufferS_dvd
  obtain ⟨b, hb⟩ := sizes.bufferS_dvd
  have hspos := sizes.sortBufferS_pos
  have hbpos := sizes.bufferS_pos
  have htpos : 0 < t := by omega
  have hparts : s.fsize / sizes.sortBufferS + 1 = s.file.words.length / t + 1 := by
    rw [hfsize, ht, Nat.mul_div_mul_left _ _ (by decide)]
  have hrounds : s.fsize / 8 = s.file.words.length := by omega
  have hblock : sizes.bufferS / 8 = b := by omega
  rw [sort]
  generalize hdef : s.fsize / sizes.sortBufferS + 1 = parts at hparts ⊢
  have hbuf : (sizes.sortBufferS / 8 / parts + 1) * 8 = 8 * (sizes.sortBufferS / 8 / parts + 1) :=
    Nat.mul_comm _ _
  generalize sizes.sortBufferS / 8 / parts = v at hbuf ⊢
  have hps : PartsSorted t (v + 1) s.file.words parts _ := sortParts_sorted ht hbuf hparts
    ⟨s.file, u.buf, u.partbufs, fun _ => 0⟩ rfl
  generalize (List.range parts).foldl (sortPart sizes ((v + 1) * 8))
    ⟨s.file, u.buf, u.partbufs, fun _ => 0⟩ = ps at hps ⊢
  have hlen := hps.length
  have hsize : ∀ j, j < parts → ps.partsize j = 8 * (block t ps.file.words j).length := by
    intro j hj
    rw [hps.partsize j hj, hps.done j hj, qsort_length]
  obtain ⟨m, hm, c, out, hinv⟩ := LoopRules.foldlM_range
    (mergeStep sizes ((v + 1) * 8) ps.partsize parts s.fsize) (8 * ·)
    (fun k m => ∃ c out, MergeInvariant t (v + 1) b parts ps.file.words k c out m)
    s.file.words.length ⟨ps.file, ps.buf, ps.partbufs, fun _ => 0, openTmpFile, []⟩
    ⟨_, _, hps.mergeInvariant htpos hparts⟩ (by
      intro k m hk ⟨c, out, hinv⟩
      rw [hfsize, ← hlen]
      exact mergeStep_invariant hinv ht hbuf hb htpos (Nat.succ_pos v) (by omega) hsize
        (by omega))
  have hlength : out.length = ps.file.words.length := by rw [hinv.length, hlen]
  have hmerged := hinv.merging.sorted_of_length hlength
  have hwords : m.newFile.words = out := by
    have hwritten := hinv.written
    rw [hlen] at hwritten
    exact hwritten.finished
  refine ⟨m.newFile, m.blockEnds, ?_, ?_, ?_, ?_⟩
  · rw [hrounds, hm]
    rfl
  · rw [hwords]
    exact (hps.perm htpos hparts).trans hmerged.1
  · rw [hwords]
    exact hmerged.2
  · rw [hwords, hblock]
    exact hinv.blockEnds

end sort

end Pfaedle.IdSet
