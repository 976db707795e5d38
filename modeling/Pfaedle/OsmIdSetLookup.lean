import Pfaedle.OsmIdSetSort

set_option autoImplicit false

/-!
# Lookups in an `osm_id_set`

What has been added is in the file or still in the output buffer; once the set is closed it is
in the file, sorted, and every lookup keeps that.
-/
namespace Pfaedle.IdSet
open Osm SortedBlocks

section filter

structure Filtered (ids : List Osmid) (s : OsmIdSet) : Prop where
  smallest : ∀ x ∈ ids, s.smallest ≤ x
  biggest : ∀ x ∈ ids, x ≤ s.biggest
  range : (ids = [] ∧ s.smallest = -1 ∧ s.biggest = 0) ∨ s.biggest ∈ ids
  bitset : ∀ x ∈ ids, ∀ i ∈ hashes x, s.bitset i = true

theorem foldl_update_true (bits : UInt32 → Bool) (hs : List UInt32) (i : UInt32) :
    hs.foldl (fun bits i => Function.update bits i true) bits i = true ↔
      i ∈ hs ∨ bits i = true := by
  induction hs generalizing bits with
  | nil => simp
  | cons h hs ih =>
    rw [List.foldl_cons, ih]
    by_cases hi : i = h
    · subst hi
      simp
    · rw [Function.update_of_ne hi]
      simp [hi]

theorem Filtered.has_of_empty {ids : List Osmid} {s : OsmIdSet} (h : Filtered ids s) {id : Osmid}
    (hlow : s.smallest ≤ id) (hhigh : id ≤ s.biggest) : s.biggest ∈ ids := by
  cases h.range with
  | inl hempty =>
    obtain ⟨-, hsmallest, hbiggest⟩ := hempty
    rw [hsmallest] at hlow
    rw [hbiggest] at hhigh
    exact absurd (le_trans hlow hhigh) (by decide)
  | inr hmem => exact hmem

theorem Filtered.add {ids : List Osmid} {s : OsmIdSet} (h : Filtered ids s) (id : Osmid) {s' : OsmIdSet}
    (hsmallest : s'.smallest = if id < s.smallest then id else s.smallest)
    (hbiggest : s'.biggest = if s.biggest < id then id else s.biggest)
    (hbitset : s'.bitset =
      (hashes id).foldl (fun bits i => Function.update bits i true) s.bitset) :
    Filtered (ids ++ [id]) s' := by
  have hlow : s'.smallest ≤ id ∧ s'.smallest ≤ s.smallest := by
    rw [hsmallest]
    split
    · rename_i hlt
      exact ⟨le_refl _, le_of_lt hlt⟩
    · rename_i hge
      exact ⟨le_of_not_gt hge, le_refl _⟩
  have hhigh : id ≤ s'.biggest ∧ s.biggest ≤ s'.biggest := by
    rw [hbiggest]
    split
    · rename_i hlt
      exact ⟨le_refl _, le_of_lt hlt⟩
    · rename_i hge
      exact ⟨le_of_not_gt hge, le_refl _⟩
  constructor
  · intro x hx
    cases List.mem_append.1 hx with
    | inl hx => exact le_trans hlow.2 (h.smallest x hx)
    | inr hx => rw [List.mem_singleton.1 hx]; exact hlow.1
  · intro x hx
    cases List.mem_append.1 hx with
    | inl hx => exact le_trans (h.biggest x hx) hhigh.2
    | inr hx => rw [List.mem_singleton.1 hx]; exact hhigh.1
  · refine Or.inr (List.mem_append.2 ?_)
    rw [hbiggest]
    split
    · exact Or.inr (List.mem_singleton_self id)
    · rename_i hge
      cases h.range with
      | inl hempty =>
        have hzero : id = 0 := by
          have hle := le_of_not_gt hge
          rw [hempty.2.2] at hle
          exact le_antisymm hle (UInt64.le_iff_toNat_le.2 (Nat.zero_le _))
        rw [hempty.2.2, hzero]
        exact Or.inr (List.mem_singleton_self 0)
      | inr hmem => exact Or.inl hmem
  · intro x hx i hi
    rw [hbitset, foldl_update_true]
    cases List.mem_append.1 hx with
    | inl hx => exact Or.inr (h.bitset x hx i hi)
    | inr hx => rw [List.mem_singleton.1 hx] at hi; exact Or.inl hi

end filter

section add
variable {sizes : BufferSizes} {ids : List Osmid} {s : OsmIdSet}

structure Added (sizes : BufferSizes) (ids : List Osmid) (s : OsmIdSet) : Prop
    extends Filtered ids s where
  closed : s.closed = false
  data : s.file.words ++ s.outBuffer.words s.obufpos = ids
  fsize : s.fsize = 8 * s.file.words.length
  pos : s.file.pos = 8 * s.file.words.length
  obufpos : s.obufpos = 8 * (ids.length - s.file.words.length)
  flushed : sizes.obufferS ∣ s.fsize
  room : s.obufpos < sizes.obufferS
  blockEnds : BlockEnds (sizes.bufferS / 8) ids s.blockEnds
  curBlock : s.curBlock = none
  sorted : s.sorted = true → ids.Pairwise (· ≤ ·) ∧ ∀ x ∈ ids, x ≤ s.last

theorem added_new (sizes : BufferSizes) (u : Uninit) : Added sizes [] (OsmIdSet.new u) where
  smallest := by simp
  biggest := by simp
  range := Or.inl ⟨rfl, rfl, rfl⟩
  bitset := by simp
  closed := rfl
  data := by simp [OsmIdSet.new, openTmpFile, Buffer.words]
  fsize := rfl
  pos := rfl
  obufpos := rfl
  flushed := Nat.dvd_zero _
  room := sizes.obufferS_pos
  blockEnds := blockEnds_nil _
  curBlock := rfl
  sorted _ := ⟨List.Pairwise.nil, by simp⟩

theorem Added.words_length (h : Added sizes ids s) :
    ids.length = s.file.words.length + s.obufpos / 8 := by
  have hlen := congrArg List.length h.data
  rw [List.length_append, Buffer.words, List.length_map, List.length_range] at hlen
  omega

theorem Added.data_store (h : Added sizes ids s) (id : Osmid) :
    s.file.words ++ (s.outBuffer.store s.obufpos id).words (s.obufpos + 8) = ids ++ [id] := by
  have hdata := h.data
  rw [h.obufpos] at hdata ⊢
  rw [Buffer.words_store, ← List.append_assoc, hdata]

theorem Added.blockEnds_step (h : Added sizes ids s) (id : Osmid) :
    BlockEnds (sizes.bufferS / 8) (ids ++ [id])
      (if (s.obufpos + 8) % sizes.bufferS = 0 then s.blockEnds ++ [id] else s.blockEnds) := by
  obtain ⟨b, hb⟩ := sizes.bufferS_dvd
  have hbpos := sizes.bufferS_pos
  have hdiv : sizes.bufferS / 8 = b := by omega
  obtain ⟨m, hm⟩ := Nat.dvd_trans sizes.obufferS_dvd h.flushed
  have hlen := h.words_length
  have hobufpos := h.obufpos
  have hfsize := h.fsize
  have hsplit : 8 * (ids.length + 1) = sizes.bufferS * m + (s.obufpos + 8) := by omega
  have hmod : (s.obufpos + 8) % sizes.bufferS = 8 * ((ids.length + 1) % b) := by
    rw [← Nat.mul_mod_mul_left, ← hb, hsplit, Nat.mul_add_mod]
  rw [hdiv, hmod]
  have hends := h.blockEnds
  rw [hdiv] at hends
  split
  · exact hends.append_end (by omega) id (by omega)
  · exact hends.append_inner (by omega) id (by omega)

theorem Added.sorted_step (h : Added sizes ids s) (id : Osmid)
    (hsorted : (if id < s.last then false else s.sorted) = true) :
    (ids ++ [id]).Pairwise (· ≤ ·) ∧ ∀ x ∈ ids ++ [id], x ≤ id := by
  split at hsorted
  · exact absurd hsorted (by decide)
  · rename_i hge
    have hlast : ∀ x ∈ ids, x ≤ id := fun x hx =>
      le_trans ((h.sorted hsorted).2 x hx) (le_of_not_gt hge)
    constructor
    · rw [List.pairwise_append]
      refine ⟨(h.sorted hsorted).1, List.pairwise_singleton _ _, ?_⟩
      intro x hx y hy
      rw [List.mem_singleton.1 hy]
      exact hlast x hx
    · intro x hx
      cases List.mem_append.1 hx with
      | inl hx => exact hlast x hx
      | inr hx => rw [List.mem_singleton.1 hx]

theorem add_added (h : Added sizes ids s) (id : Osmid) :
    ∃ s', add sizes s id = some s' ∧ Added sizes (ids ++ [id]) s' := by
  have hdata := h.data_store id
  have hends := h.blockEnds_step id
  have hobufpos := h.obufpos
  have hroom := h.room
  have hlen := h.words_length
  have hfsize := h.fsize
  obtain ⟨n, hn⟩ := Nat.dvd_trans sizes.bufferS_dvd sizes.obufferS_dvd
  rw [add, h.closed, if_neg Bool.false_ne_true]
  refine ⟨_, rfl, ?_⟩
  rw [diskAdd]
  by_cases hfull : sizes.obufferS ≤ s.obufpos + 8
  · have hexact : s.obufpos + 8 = sizes.obufferS := by omega
    have hflush : s.file.write ((s.outBuffer.store s.obufpos id).words sizes.obufferS) =
        ⟨ids ++ [id], 8 * (ids ++ [id]).length⟩ := by
      rw [TmpFile.write_end _ _ h.pos, ← hexact, hdata]
    simp only [if_pos hfull, hflush]
    exact {
      toFiltered := h.toFiltered.add id rfl rfl rfl
      closed := h.closed
      data := by simp [Buffer.words]
      fsize := by
        dsimp only
        rw [List.length_append, List.length_singleton]
        omega
      pos := rfl
      obufpos := by simp
      flushed := Nat.dvd_add h.flushed (Nat.dvd_refl _)
      room := sizes.obufferS_pos
      blockEnds := hends
      curBlock := h.curBlock
      sorted := h.sorted_step id }
  · simp only [if_neg hfull]
    exact {
      toFiltered := h.toFiltered.add id rfl rfl rfl
      closed := h.closed
      data := hdata
      fsize := h.fsize
      pos := h.pos
      obufpos := by
        dsimp only
        rw [List.length_append, List.length_singleton]
        omega
      flushed := h.flushed
      room := by
        dsimp only
        omega
      blockEnds := hends
      curBlock := h.curBlock
      sorted := h.sorted_step id }

theorem foldlM_add (h : Added sizes ids s) (ids' : List Osmid) :
    ∃ s', ids'.foldlM (add sizes) s = some s' ∧ Added sizes (ids ++ ids') s' := by
  induction ids' generalizing ids s with
  | nil => exact ⟨s, rfl, by rwa [List.append_nil]⟩
  | cons id ids' ih =>
    obtain ⟨s', hs', hadded⟩ := add_added h id
    obtain ⟨s'', hs'', hadded'⟩ := ih hadded
    refine ⟨s'', ?_, ?_⟩
    · rw [List.foldlM_cons, hs']
      exact hs''
    · rwa [List.append_assoc] at hadded'

end add

section search
variable {words : List UInt64} {buffer : Buffer}

theorem searchBlock_eq (hsorted : words.Pairwise (· ≤ ·))
    (hbuffer : ∀ i, i < words.length → some (buffer i) = words[i]?) (id : Osmid)
    (k lo hi : ℕ) (hfuel : hi - lo < k) (hlo : lo ≤ hi) (hhi : hi ≤ words.length)
    (hbelow : ∀ i x, i < lo → words[i]? = some x → x < id)
    (habove : ∀ i x, hi ≤ i → words[i]? = some x → id < x) :
    searchBlock buffer id k (8 * lo) (8 * hi - 8) = decide (id ∈ words) := by
  induction k generalizing lo hi with
  | zero => omega
  | succ k ih =>
    rw [searchBlock]
    split
    · rename_i hle
      have hlt : lo < hi := by omega
      generalize hmid : lo + (hi - 1 - lo) / 2 = mid
      have hp : (8 * (lo : ℤ) + (8 * (hi : ℤ) - 8 - 8 * (lo : ℤ)) / 16 * 8) = 8 * (mid : ℤ) := by
        omega
      have hload : some (buffer.load (8 * (mid : ℤ)).toNat) = words[mid]? := by
        have hdiv : (8 * (mid : ℤ)).toNat / 8 = mid := by omega
        rw [Buffer.load, hdiv]
        exact hbuffer mid (by omega)
      simp only [hp]
      generalize buffer.load (8 * (mid : ℤ)).toNat = cur at hload ⊢
      split
      · rename_i heq
        subst heq
        exact (decide_eq_true (List.mem_of_getElem? hload.symm)).symm
      · rename_i hne
        split
        · rename_i hcur
          have hnext : 8 * (mid : ℤ) + 8 = 8 * ((mid + 1 : ℕ) : ℤ) := by omega
          rw [hnext]
          apply ih (mid + 1) hi (by omega) (by omega) hhi _ habove
          intro i x hi' hx
          exact lt_of_le_of_lt (getElem?_le hsorted (by omega) hx hload.symm) hcur
        · rename_i hcur
          apply ih lo mid (by omega) (by omega) (by omega) hbelow
          intro i x hi' hx
          have hid : id < cur := lt_of_le_of_ne (le_of_not_gt hcur) (Ne.symm hne)
          exact lt_of_lt_of_le hid (getElem?_le hsorted hi' hload.symm hx)
    · rename_i hgt
      symm
      rw [decide_eq_false_iff_not]
      intro hmem
      obtain ⟨i, hi'⟩ := List.getElem?_of_mem hmem
      by_cases hil : i < lo
      · exact lt_irrefl _ (hbelow i id hil hi')
      · exact lt_irrefl _ (habove i id (by omega) hi')

end search

section lookup
variable {sizes : BufferSizes} {ids : List Osmid} {s : OsmIdSet}

/-- Block `j` of the file lies in the buffer when `j` is the current block. -/
def Cached (sizes : BufferSizes) (s : OsmIdSet) : Prop :=
  ∀ j, s.curBlock = some j →
    let words := block (sizes.bufferS / 8) s.file.words j
    s.curBlockSize = 8 * words.length ∧ ∀ i, i < words.length → some (s.buffer i) = words[i]?

structure Searchable (sizes : BufferSizes) (ids : List Osmid) (s : OsmIdSet) : Prop
    extends Filtered ids s where
  closed : s.closed = true
  sorted : s.sorted = true
  perm : ids.Perm s.file.words
  words_sorted : s.file.words.Pairwise (· ≤ ·)
  blockEnds : ∃ ends extra, s.blockEnds = ends ++ extra ∧
    BlockEnds (sizes.bufferS / 8) s.file.words ends ∧ ∀ e ∈ extra, e = s.biggest
  cached : Cached sizes s

theorem close_searchable (u : Uninit) (h : Added sizes ids s) :
    ∃ s', close sizes u s = some s' ∧ Searchable sizes ids s' := by
  have hfile : s.file.write (s.outBuffer.words s.obufpos) = ⟨ids, 8 * ids.length⟩ := by
    rw [TmpFile.write_end _ _ h.pos, h.data]
  have hfsize : s.fsize + s.obufpos = 8 * ids.length := by
    have hlen := h.words_length
    have hobufpos := h.obufpos
    have hfsize := h.fsize
    omega
  simp only [close, hfile, hfsize]
  split
  · rename_i hsorted
    refine ⟨_, rfl, ?_⟩
    exact {
      smallest := h.smallest
      biggest := h.biggest
      range := h.range
      bitset := h.bitset
      closed := rfl
      sorted := hsorted
      perm := List.Perm.refl _
      words_sorted := (h.sorted hsorted).1
      blockEnds := ⟨s.blockEnds, [s.biggest], rfl, h.blockEnds, by simp⟩
      cached := by
        intro j hj
        exact absurd (h.curBlock.symm.trans hj) (by simp) }
  · rename_i hsorted
    obtain ⟨file, blockEnds, hsort, hperm, hwords, hends⟩ := sort_sorted sizes u
      { s with file := ⟨ids, 8 * ids.length⟩, fsize := 8 * ids.length,
               blockEnds := s.blockEnds ++ [s.biggest], closed := true } rfl
    refine ⟨_, hsort, ?_⟩
    exact {
      smallest := h.smallest
      biggest := h.biggest
      range := h.range
      bitset := h.bitset
      closed := rfl
      sorted := rfl
      perm := hperm
      words_sorted := hwords
      blockEnds := ⟨blockEnds, [], (List.append_nil _).symm, hends, by simp⟩
      cached := by
        intro j hj
        exact absurd (h.curBlock.symm.trans hj) (by simp) }

theorem loadBlock_searchable (h : Searchable sizes ids s) (j : ℕ) :
    Searchable sizes ids (loadBlock sizes s j) ∧ (loadBlock sizes s j).curBlock = some j ∧
      (loadBlock sizes s j).file.words = s.file.words := by
  obtain ⟨b, hb⟩ := sizes.bufferS_dvd
  have hdiv : sizes.bufferS / 8 = b := by omega
  have hread : ((s.file.lseek (j * sizes.bufferS)).read sizes.bufferS).1 =
      block b s.file.words j := by
    have hoffset : j * sizes.bufferS = 8 * (j * b) := by rw [hb, Nat.mul_left_comm]
    rw [hoffset, hb, TmpFile.read_lseek, block]
  by_cases hcur : some j ≠ s.curBlock
  · rw [loadBlock, if_pos hcur]
    dsimp only
    rw [hread]
    refine ⟨?_, rfl, rfl⟩
    exact {
      smallest := h.smallest
      biggest := h.biggest
      range := h.range
      bitset := h.bitset
      closed := h.closed
      sorted := h.sorted
      perm := h.perm
      words_sorted := h.words_sorted
      blockEnds := h.blockEnds
      cached := by
        intro i hi
        obtain rfl := Option.some.inj hi
        rw [hdiv]
        exact ⟨rfl, fun i hi => Buffer.fill_getElem? _ _ hi⟩ }
  · rw [loadBlock, if_neg hcur]
    rw [ne_eq, not_not] at hcur
    exact ⟨h, hcur.symm, rfl⟩

theorem searchBlock_loaded (h : Searchable sizes ids s) {j : ℕ} (hj : s.curBlock = some j)
    (id : Osmid) :
    (if s.curBlockSize ≤ 7 then some (false, s)
      else if id < s.buffer.load 0 then some (false, s)
      else some (searchBlock s.buffer id s.curBlockSize 0 (s.curBlockSize - 8), s)) =
      some (decide (id ∈ block (sizes.bufferS / 8) s.file.words j), s) := by
  obtain ⟨hsize, hbuffer⟩ := h.cached j hj
  have hsorted : (block (sizes.bufferS / 8) s.file.words j).Pairwise (· ≤ ·) :=
    (h.words_sorted.sublist (List.drop_sublist _ _)).sublist (List.take_sublist _ _)
  generalize block (sizes.bufferS / 8) s.file.words j = words at hsize hbuffer hsorted ⊢
  split
  · have hnil : words = [] := List.eq_nil_of_length_eq_zero (by omega)
    simp [hnil]
  · rename_i hpos
    have hfirst := hbuffer 0 (by omega)
    split
    · rename_i hlt
      have hnot : id ∉ words := by
        intro hmem
        obtain ⟨i, hi⟩ := List.getElem?_of_mem hmem
        exact lt_irrefl _ (lt_of_lt_of_le hlt (getElem?_le hsorted (Nat.zero_le i) hfirst.symm hi))
      simp [hnot]
    · have hsearch := searchBlock_eq hsorted hbuffer id s.curBlockSize 0 words.length
        (by omega) (Nat.zero_le _) (le_refl _) (by simp) (by
          intro i x hi hx
          rw [List.getElem?_eq_none hi] at hx
          simp at hx)
      rw [← hsearch, hsize]
      simp

theorem diskHas_eq (h : Searchable sizes ids s) {id : Osmid} (hlow : s.smallest ≤ id)
    (hhigh : id ≤ s.biggest) : ∃ s', diskHas sizes s id = some (decide (id ∈ ids), s') ∧
      Searchable sizes ids s' := by
  obtain ⟨ends, extra, hcat, hends, hextra⟩ := h.blockEnds
  have hwpos : 0 < sizes.bufferS / 8 := by
    have hpos := sizes.bufferS_pos
    have hdvd := sizes.bufferS_dvd
    omega
  rw [diskHas, if_neg (by simp [h.sorted])]
  split
  · rename_i hmem
    have hin : id ∈ ids := by
      rw [hcat] at hmem
      cases List.mem_append.1 hmem with
      | inl he => exact h.perm.mem_iff.2 (hends.mem he)
      | inr he => rw [hextra id he]; exact h.has_of_empty hlow hhigh
    exact ⟨s, by simp [hin], h⟩
  · rename_i hmem
    obtain ⟨hload, hcur, hwords⟩ := loadBlock_searchable h (getBlock s id)
    refine ⟨loadBlock sizes s (getBlock s id), ?_, hload⟩
    rw [searchBlock_loaded hload hcur, hwords]
    have hbound : ∀ e ∈ extra, ∀ x ∈ s.file.words, x ≤ e := by
      intro e he x hx
      rw [hextra e he]
      exact h.biggest x (h.perm.mem_iff.2 hx)
    rw [hcat] at hmem
    have hiff := mem_iff_mem_block hwpos h.words_sorted hends hbound hmem
    rw [← hcat, ← h.perm.mem_iff] at hiff
    rw [getBlock, decide_eq_decide.2 hiff]

theorem has_searchable (u : Uninit) (h : Searchable sizes ids s) (id : Osmid) :
    ∃ s', has sizes u s id = some (decide (id ∈ ids), s') ∧ Searchable sizes ids s' := by
  simp only [has, h.closed, if_pos, Option.bind_eq_bind, Option.bind_some]
  split
  · rename_i hrange
    have hnot : id ∉ ids := by
      intro hmem
      cases hrange with
      | inl hlt => exact absurd (h.smallest id hmem) (not_le_of_gt hlt)
      | inr hlt => exact absurd (h.biggest id hmem) (not_le_of_gt hlt)
    exact ⟨s, by simp [hnot], h⟩
  · rename_i hrange
    rw [not_or, not_lt, not_lt] at hrange
    split
    · rename_i hbits
      have hnot : id ∉ ids := by
        intro hmem
        obtain ⟨i, hi, hbit⟩ := List.any_eq_true.1 hbits
        simp [h.bitset id hmem i hi] at hbit
      exact ⟨s, by simp [hnot], h⟩
    · exact diskHas_eq h hrange.1 hrange.2

theorem hasAll_searchable (u : Uninit) (h : Searchable sizes ids s) (qs : List Osmid) :
    hasAll sizes u s qs = some (qs.map fun q => decide (q ∈ ids)) := by
  induction qs generalizing s with
  | nil => rfl
  | cons q qs ih =>
    obtain ⟨s', hs', hsearchable⟩ := has_searchable u h q
    rw [hasAll, hs']
    simp only [Option.bind_eq_bind, Option.bind_some, ih hsearchable, List.map_cons]

theorem hasAll_added (u : Uninit) (h : Added sizes ids s) (qs : List Osmid) :
    hasAll sizes u s qs = some (qs.map fun q => decide (q ∈ ids)) := by
  cases qs with
  | nil => rfl
  | cons q qs =>
    obtain ⟨s', hs', hsearchable⟩ := close_searchable u h
    have hopen : has sizes u s q = has sizes u s' q := by
      simp only [has, h.closed, hsearchable.closed, hs']
      rfl
    have hrest := hasAll_searchable u hsearchable (q :: qs)
    rw [hasAll, hopen, ← hasAll]
    exact hrest

end lookup

/-- An `osm_id_set` is a set, at the sizes of the source. -/
theorem has_iff_added (u : Uninit) (ids qs : List Osmid) :
    (ids.foldlM (add bufferSizes) (OsmIdSet.new u)).bind (fun s => hasAll bufferSizes u s qs) =
      some (qs.map fun q => decide (q ∈ ids)) := by
  obtain ⟨s, hs, hadded⟩ := foldlM_add (added_new bufferSizes u) ids
  rw [hs, Option.bind_some]
  exact hasAll_added u hadded qs

end Pfaedle.IdSet
