import Pfaedle.Osm
import Mathlib.Data.List.Sort
import Mathlib.Data.UInt
import Mathlib.Logic.Function.Basic
import Mathlib.Order.Lattice

set_option autoImplicit false

/-!
# `pfaedle::osm::osm_id_set`

Files and buffers are read and written in 64-bit words only; offsets and sizes count bytes, as
in `osm_id_set.cpp`. Memory from `new` holds arbitrary words until it is written.
-/
namespace Pfaedle.IdSet
open Osm

instance instLinearOrderUInt64 : LinearOrder UInt64 where
  le_refl := UInt64.le_refl
  le_trans _ _ _ := UInt64.le_trans
  le_antisymm _ _ := UInt64.le_antisymm
  le_total := UInt64.le_total
  lt_iff_le_not_ge a b := by simp only [UInt64.lt_iff_toNat_lt, UInt64.le_iff_toNat_le]; omega
  toDecidableLE := inferInstance
  toDecidableLT := inferInstance
  toDecidableEq := inferInstance
  min_def _ _ := rfl
  max_def _ _ := rfl

/-- Buffer sizes must be multiples of 8, and whole blocks are flushed. -/
structure BufferSizes where
  bufferS : ℕ
  sortBufferS : ℕ
  obufferS : ℕ
  bufferS_dvd : 8 ∣ bufferS
  bufferS_pos : 0 < bufferS
  sortBufferS_dvd : 8 ∣ sortBufferS
  sortBufferS_pos : 0 < sortBufferS
  obufferS_dvd : bufferS ∣ obufferS
  obufferS_pos : 0 < obufferS

def bufferSizes : BufferSizes where
  bufferS := 8 * 64 * 1024
  sortBufferS := 8 * 64 * 1024
  obufferS := 8 * 1024 * 1024
  bufferS_dvd := by decide
  bufferS_pos := by decide
  sortBufferS_dvd := by decide
  sortBufferS_pos := by decide
  obufferS_dvd := by decide
  obufferS_pos := by decide

def bloomfBits : UInt32 := 400000000

/-- The temporary file and the offset of its next `read` or `write`. -/
structure TmpFile where
  words : List UInt64
  pos : ℕ

def openTmpFile : TmpFile := ⟨[], 0⟩

def TmpFile.lseek (f : TmpFile) (offset : ℕ) : TmpFile := { f with pos := offset }

def TmpFile.read (f : TmpFile) (n : ℕ) : List UInt64 × TmpFile :=
  let ws := (f.words.drop (f.pos / 8)).take (n / 8)
  (ws, { f with pos := f.pos + 8 * ws.length })

def TmpFile.write (f : TmpFile) (ws : List UInt64) : TmpFile where
  words := f.words.takeD (f.pos / 8) 0 ++ ws ++ f.words.drop (f.pos / 8 + ws.length)
  pos := f.pos + 8 * ws.length

/-- Word `i` of a buffer is stored at offset `8 * i`. -/
abbrev Buffer := ℕ → UInt64

def Buffer.load (buf : Buffer) (offset : ℕ) : UInt64 := buf (offset / 8)

def Buffer.store (buf : Buffer) (offset : ℕ) (word : UInt64) : Buffer :=
  Function.update buf (offset / 8) word

def Buffer.words (buf : Buffer) (n : ℕ) : List UInt64 := (List.range (n / 8)).map buf

def Buffer.fill (buf : Buffer) (ws : List UInt64) : Buffer := fun i => ws.getD i (buf i)

theorem TmpFile.write_end (f : TmpFile) (ws : List UInt64) (hpos : f.pos = 8 * f.words.length) :
    f.write ws = ⟨f.words ++ ws, 8 * (f.words ++ ws).length⟩ := by
  have hdiv : f.pos / 8 = f.words.length := by omega
  rw [TmpFile.write, hdiv, List.takeD_eq_take _ (Nat.le_refl _), List.take_length,
    List.drop_of_length_le (by omega), List.append_nil, List.length_append, hpos, Nat.mul_add]

theorem TmpFile.read_lseek (f : TmpFile) (k n : ℕ) :
    ((f.lseek (8 * k)).read (8 * n)).1 = (f.words.drop k).take n := by
  simp [TmpFile.read, TmpFile.lseek]

theorem Buffer.length_words (buf : Buffer) (n : ℕ) : (buf.words (8 * n)).length = n := by
  simp [Buffer.words]

theorem Buffer.words_getElem? (buf : Buffer) {n i : ℕ} (hi : i < n) :
    (buf.words (8 * n))[i]? = some (buf i) := by
  simp [Buffer.words, hi]

theorem Buffer.fill_getElem? (buf : Buffer) (ws : List UInt64) {i : ℕ} (hi : i < ws.length) :
    some (buf.fill ws i) = ws[i]? := by
  simp [Buffer.fill, List.getD_eq_getElem?_getD, hi]

theorem Buffer.words_fill (buf : Buffer) (ws : List UInt64) {n : ℕ} (hn : n ≤ ws.length) :
    (buf.fill ws).words (8 * n) = ws.take n := by
  apply List.ext_getElem?
  intro i
  by_cases hi : i < n
  · rw [Buffer.words_getElem? _ hi, List.getElem?_take_of_lt hi, Buffer.fill_getElem? _ _ (by omega)]
  · rw [List.getElem?_eq_none, List.getElem?_eq_none]
    · rw [List.length_take]
      omega
    · rw [Buffer.length_words]
      omega

theorem Buffer.words_store (buf : Buffer) (n : ℕ) (word : UInt64) :
    (buf.store (8 * n) word).words (8 * n + 8) = buf.words (8 * n) ++ [word] := by
  have hdiv : (8 * n + 8) / 8 = n + 1 := by omega
  have hdiv' : 8 * n / 8 = n := by omega
  rw [Buffer.words, Buffer.words, hdiv, hdiv', List.range_succ, List.map_append]
  congr 1
  · apply List.map_congr_left
    intro i hi
    have hlt := List.mem_range.1 hi
    rw [Buffer.store, hdiv', Function.update_of_ne (by omega)]
  · rw [List.map_singleton, Buffer.store, hdiv', Function.update_self]

structure OsmIdSet where
  closed : Bool
  file : TmpFile
  buffer : Buffer
  outBuffer : Buffer
  sorted : Bool
  last : Osmid
  smallest : Osmid
  biggest : Osmid
  obufpos : ℕ
  /-- `none` is the initial `size_t` `-1`. -/
  curBlock : Option ℕ
  curBlockSize : ℕ
  bitset : UInt32 → Bool
  blockEnds : List Osmid
  fsize : ℕ

/-- What the uninitialised memory of a set and of its `sort` holds. -/
structure Uninit where
  buffer : Buffer
  outBuffer : Buffer
  curBlockSize : ℕ
  buf : Buffer
  partbufs : ℕ → Buffer

def OsmIdSet.new (u : Uninit) : OsmIdSet where
  closed := false
  file := openTmpFile
  buffer := u.buffer
  outBuffer := u.outBuffer
  sorted := true
  last := 0
  smallest := -1
  biggest := 0
  obufpos := 0
  curBlock := none
  curBlockSize := u.curBlockSize
  bitset := fun _ => false
  blockEnds := []
  fsize := 0

section hash

def knuth (x : UInt32) : UInt32 := (x * 2654435769) >>> 2

def jenkins (x : UInt32) : UInt32 :=
  let x := (x + 0x7ed55d16) + (x <<< (12 : UInt32))
  let x := (x ^^^ 0xc761c23c) ^^^ (x >>> (19 : UInt32))
  let x := (x + 0x165667b1) + (x <<< (5 : UInt32))
  let x := (x + 0xd3a2646c) ^^^ (x <<< (9 : UInt32))
  let x := (x + 0xfd7046c5) + (x <<< (3 : UInt32))
  let x := (x ^^^ 0xb55a4f09) ^^^ (x >>> (16 : UInt32))
  x >>> 2

def hash (x : UInt32) (i : ℕ) : UInt32 := (knuth x + jenkins x * UInt32.ofNat i) % bloomfBits

/-- The ten bits of an id, which is cut to 32 bits on the way into `hash`. -/
def hashes (id : Osmid) : List UInt32 := (List.range 10).map (hash id.toUInt32)

end hash

section add
variable (sizes : BufferSizes)

def diskAdd (s : OsmIdSet) (id : Osmid) : OsmIdSet :=
  let outBuffer := s.outBuffer.store s.obufpos id
  let obufpos := s.obufpos + 8
  let blockEnds := if obufpos % sizes.bufferS = 0 then s.blockEnds ++ [id] else s.blockEnds
  if sizes.obufferS ≤ obufpos then
    { s with outBuffer, blockEnds, obufpos := 0, fsize := s.fsize + sizes.obufferS
             file := s.file.write (outBuffer.words sizes.obufferS) }
  else { s with outBuffer, blockEnds, obufpos }

def add (s : OsmIdSet) (id : Osmid) : Option OsmIdSet :=
  if s.closed then none
  else
    let s := diskAdd sizes s id
    some { s with
      sorted := if id < s.last then false else s.sorted
      last := id
      smallest := if id < s.smallest then id else s.smallest
      biggest := if s.biggest < id then id else s.biggest
      bitset := (hashes id).foldl (fun bits i => Function.update bits i true) s.bitset }

end add

section sort
variable (sizes : BufferSizes)

def qsort (ws : List UInt64) : List UInt64 := ws.mergeSort fun a b => decide (a ≤ b)

structure Parts where
  file : TmpFile
  buf : Buffer
  partbufs : ℕ → Buffer
  partsize : ℕ → ℕ

def sortPart (partsBufSize : ℕ) (ps : Parts) (i : ℕ) : Parts :=
  let (ws, file) := (ps.file.lseek (sizes.sortBufferS * i)).read sizes.sortBufferS
  let n := 8 * ws.length
  let buf := ps.buf.fill (qsort ws)
  { file := (file.lseek (sizes.sortBufferS * i)).write (buf.words n)
    buf
    partbufs := Function.update ps.partbufs i
      ((ps.partbufs i).fill (buf.words (min n partsBufSize)))
    partsize := Function.update ps.partsize i n }

structure Merge where
  file : TmpFile
  buf : Buffer
  partbufs : ℕ → Buffer
  partpos : ℕ → ℕ
  newFile : TmpFile
  blockEnds : List Osmid

/-- The inner loop: the smallest word any part is at, and the last part that is at it. -/
def findSmallest (partsBufSize : ℕ) (partsize : ℕ → ℕ) (m : Merge) (parts : ℕ) :
    UInt64 × Option ℕ :=
  (List.range parts).foldl
    (fun acc j =>
      if m.partpos j = partsize j then acc
      else
        let word := (m.partbufs j).load (m.partpos j % partsBufSize)
        if word ≤ acc.1 then (word, some j) else acc)
    (-1, none)

/-- One round of the merge loop; `none` is its failed assertion. -/
def mergeStep (partsBufSize : ℕ) (partsize : ℕ → ℕ) (parts fsize : ℕ) (m : Merge) (i : ℕ) :
    Option Merge :=
  match findSmallest partsBufSize partsize m parts with
  | (_, none) => none
  | (smallest, some p) =>
    let buf := m.buf.store (i % sizes.sortBufferS) smallest
    let blockEnds :=
      if (i + 8) % sizes.bufferS = 0 then m.blockEnds ++ [smallest] else m.blockEnds
    let newFile :=
      if i % sizes.sortBufferS = sizes.sortBufferS - 8 ∨ i = fsize - 8 then
        m.newFile.write (buf.words (i % sizes.sortBufferS + 8))
      else m.newFile
    let partpos := Function.update m.partpos p (m.partpos p + 8)
    if partpos p % partsBufSize = 0 then
      let (ws, file) := (m.file.lseek (sizes.sortBufferS * p + partpos p)).read partsBufSize
      some ⟨file, buf, Function.update m.partbufs p ((m.partbufs p).fill ws), partpos, newFile,
        blockEnds⟩
    else some ⟨m.file, buf, m.partbufs, partpos, newFile, blockEnds⟩

def sort (u : Uninit) (s : OsmIdSet) : Option OsmIdSet :=
  let parts := s.fsize / sizes.sortBufferS + 1
  let partsBufSize := (sizes.sortBufferS / 8 / parts + 1) * 8
  let ps := (List.range parts).foldl (sortPart sizes partsBufSize)
    ⟨s.file, u.buf, u.partbufs, fun _ => 0⟩
  let merged := ((List.range (s.fsize / 8)).map (8 * ·)).foldlM
    (mergeStep sizes partsBufSize ps.partsize parts s.fsize)
    ⟨ps.file, ps.buf, ps.partbufs, fun _ => 0, openTmpFile, []⟩
  merged.map fun m => { s with file := m.newFile, sorted := true, blockEnds := m.blockEnds }

end sort

section has
variable (sizes : BufferSizes) (u : Uninit)

def close (s : OsmIdSet) : Option OsmIdSet :=
  let s := { s with
    file := s.file.write (s.outBuffer.words s.obufpos)
    fsize := s.fsize + s.obufpos
    blockEnds := s.blockEnds ++ [s.biggest]
    closed := true }
  if s.sorted then some s else sort sizes u s

def getBlock (s : OsmIdSet) (id : Osmid) : ℕ := s.blockEnds.findIdx fun e => decide (id < e)

/-- The loop over `l` and `r`, which leave it in fewer rounds than there are bytes. -/
def searchBlock (buffer : Buffer) (id : Osmid) : ℕ → ℤ → ℤ → Bool
  | 0, _, _ => false
  | k + 1, l, r =>
    if l ≤ r then
      let p := l + (r - l) / 16 * 8
      let cur := buffer.load p.toNat
      if cur = id then true
      else if cur < id then searchBlock buffer id k (p + 8) r
      else searchBlock buffer id k l (p - 8)
    else false

def loadBlock (s : OsmIdSet) (block : ℕ) : OsmIdSet :=
  if some block ≠ s.curBlock then
    let (ws, file) := (s.file.lseek (block * sizes.bufferS)).read sizes.bufferS
    { s with file, buffer := s.buffer.fill ws, curBlockSize := 8 * ws.length
             curBlock := some block }
  else s

/-- `none` is the failed assertion of an unsorted set. -/
def diskHas (s : OsmIdSet) (id : Osmid) : Option (Bool × OsmIdSet) :=
  if s.sorted = false then none
  else if id ∈ s.blockEnds then some (true, s)
  else
    let s := loadBlock sizes s (getBlock s id)
    if s.curBlockSize ≤ 7 then some (false, s)
    else if id < s.buffer.load 0 then some (false, s)
    else some (searchBlock s.buffer id s.curBlockSize 0 (s.curBlockSize - 8), s)

def has (s : OsmIdSet) (id : Osmid) : Option (Bool × OsmIdSet) := do
  let s ← if s.closed then some s else close sizes u s
  if id < s.smallest ∨ s.biggest < id then some (false, s)
  else if (hashes id).any fun i => s.bitset i = false then some (false, s)
  else diskHas sizes s id

def hasAll : OsmIdSet → List Osmid → Option (List Bool)
  | _, [] => some []
  | s, id :: ids => do
    let (answer, s) ← has sizes u s id
    let answers ← hasAll s ids
    some (answer :: answers)

end has

end Pfaedle.IdSet
