/-
**Byte-addressed memory: strings of bytes and little-endian words in it.**

A region of memory, seen from a pointer into it, is a function from offsets to bytes.  Records
laid over such a region, several of them over the same bytes when they form a union, are read and
written at fixed offsets; what a reader of one record sees of a write through another is decided by
the offsets alone.

Main definitions:

* `Bytes.Mem`, `Bytes.Mem.write` — memory, and storing a string of bytes at an offset;
* `Bytes.Mem.put16`, `Bytes.Mem.get32`, `Bytes.Mem.put32` — little-endian words;
* `Bytes.Mem.Contains` — a string of bytes stands at an offset;
* `Bytes.Mem.AgreeFrom` — two memories agree from an offset on.

Main results:

* `Bytes.Mem.write_of_lt`, `Bytes.Mem.write_of_ge`, `Bytes.Mem.write_get` — what a store does and
  does not change;
* `Bytes.setWidth_signExtend` — a word that was extended with its sign;
* `Bytes.Mem.get32_put32`, `Bytes.Mem.get32_put32_of_disjoint`, `Bytes.Mem.get32_write_of_disjoint`
  — reading back a word, and reading past a store that does not touch it.
-/

import Mathlib.Tactic

set_option relaxedAutoImplicit false
set_option autoImplicit false

namespace Bytes

/-- A number that was extended with its sign is cut back to itself. -/
theorem setWidth_signExtend {w v : ℕ} (h : w ≤ v) (x : BitVec w) :
    (x.signExtend v).setWidth w = x := by
  ext i hi
  rw [BitVec.getElem_setWidth, BitVec.getLsbD_signExtend]
  simp [hi]
  omega

/-- Memory as seen from a pointer: the byte at each offset. -/
abbrev Mem := ℕ → BitVec 8

namespace Mem

/-! ### Storing a string of bytes -/

/-- Store the bytes `bs` at `o`, `o + 1`, …. -/
def write (m : Mem) (o : ℕ) (bs : List (BitVec 8)) : Mem :=
  fun i => if o ≤ i then bs.getD (i - o) (m i) else m i

/-- Nothing below a store changes. -/
theorem write_of_lt {m : Mem} {o i : ℕ} {bs : List (BitVec 8)} (h : i < o) :
    m.write o bs i = m i := by
  simp [write, Nat.not_le.2 h]

/-- Nothing past a store changes. -/
theorem write_of_ge {m : Mem} {o i : ℕ} {bs : List (BitVec 8)} (h : o + bs.length ≤ i) :
    m.write o bs i = m i := by
  have hlen : bs.length ≤ i - o := by omega
  simp [write, List.getElem?_eq_none hlen]

/-- The bytes of a store. -/
theorem write_get {m : Mem} {o j : ℕ} {bs : List (BitVec 8)} (h : j < bs.length) :
    m.write o bs (o + j) = bs[j] := by
  simp [write, h]

@[simp] theorem write_nil (m : Mem) (o : ℕ) : m.write o [] = m := by
  funext i
  simp [write]

/-- Two stores in a row are one store of both strings. -/
theorem write_append (m : Mem) (o : ℕ) (bs cs : List (BitVec 8)) :
    (m.write o bs).write (o + bs.length) cs = m.write o (bs ++ cs) := by
  funext i
  rcases Nat.lt_or_ge i o with hlt | hge
  · rw [write_of_lt (by omega), write_of_lt hlt, write_of_lt hlt]
  · obtain ⟨j, rfl⟩ : ∃ j, i = o + j := ⟨i - o, by omega⟩
    rcases Nat.lt_or_ge j bs.length with hj | hj
    · rw [write_of_lt (by omega), write_get hj, write_get (by simp; omega),
        List.getElem_append_left hj]
    · rcases Nat.lt_or_ge j (bs.length + cs.length) with hj' | hj'
      · obtain ⟨l, rfl⟩ : ∃ l, j = bs.length + l := ⟨j - bs.length, by omega⟩
        have hl : l < cs.length := by omega
        rw [← Nat.add_assoc, write_get hl, Nat.add_assoc, write_get (by simp; omega)]
        simp
      · rw [write_of_ge (by omega), write_of_ge (by omega), write_of_ge (by simp; omega)]

/-! ### Little-endian words -/

/-- The bytes of a 16-bit word, lowest first. -/
def bytes16 (v : BitVec 16) : List (BitVec 8) := [v.extractLsb' 0 8, v.extractLsb' 8 8]

/-- The bytes of a 32-bit word, lowest first. -/
def bytes32 (v : BitVec 32) : List (BitVec 8) :=
  [v.extractLsb' 0 8, v.extractLsb' 8 8, v.extractLsb' 16 8, v.extractLsb' 24 8]

/-- Store a 16-bit word at an offset. -/
def put16 (m : Mem) (o : ℕ) (v : BitVec 16) : Mem := m.write o (bytes16 v)

/-- The 32-bit word at an offset. -/
def get32 (m : Mem) (o : ℕ) : BitVec 32 := m (o + 3) ++ (m (o + 2) ++ (m (o + 1) ++ m o))

/-- Store a 32-bit word at an offset. -/
def put32 (m : Mem) (o : ℕ) (v : BitVec 32) : Mem := m.write o (bytes32 v)

@[simp] theorem bytes32_length (v : BitVec 32) : (bytes32 v).length = 4 := rfl

/-- A word is put together again from its bytes. -/
theorem extract_append (v : BitVec 32) :
    v.extractLsb' 24 8 ++ (v.extractLsb' 16 8 ++ (v.extractLsb' 8 8 ++ v.extractLsb' 0 8)) = v := by
  rw [BitVec.extractLsb'_append_extractLsb'_eq_extractLsb' (by rfl),
    BitVec.extractLsb'_append_extractLsb'_eq_extractLsb' (by rfl),
    BitVec.extractLsb'_append_extractLsb'_eq_extractLsb' (by rfl)]
  exact BitVec.extractLsb'_eq_self

/-- Reading back a word. -/
@[simp] theorem get32_put32 (m : Mem) (o : ℕ) (v : BitVec 32) : (m.put32 o v).get32 o = v := by
  have h (j : ℕ) (hj : j < 4) : m.put32 o v (o + j) = (bytes32 v)[j] := write_get hj
  have h₀ : m.put32 o v o = v.extractLsb' 0 8 := h 0 (by decide)
  have h₁ : m.put32 o v (o + 1) = v.extractLsb' 8 8 := h 1 (by decide)
  have h₂ : m.put32 o v (o + 2) = v.extractLsb' 16 8 := h 2 (by decide)
  have h₃ : m.put32 o v (o + 3) = v.extractLsb' 24 8 := h 3 (by decide)
  rw [get32, h₀, h₁, h₂, h₃]
  exact extract_append v

/-- A word depends on its four bytes only. -/
theorem get32_congr {m m' : Mem} {o : ℕ} (h : ∀ i, o ≤ i → i < o + 4 → m i = m' i) :
    m.get32 o = m'.get32 o := by
  rw [get32, get32, h o (by omega) (by omega), h (o + 1) (by omega) (by omega),
    h (o + 2) (by omega) (by omega), h (o + 3) (by omega) (by omega)]

/-- Reading a word past a store that does not touch it. -/
theorem get32_write_of_disjoint {m : Mem} {o o' : ℕ} {bs : List (BitVec 8)}
    (h : o + bs.length ≤ o' ∨ o' + 4 ≤ o) : (m.write o bs).get32 o' = m.get32 o' := by
  refine get32_congr fun i h₁ h₂ => ?_
  rcases h with h | h
  · exact write_of_ge (by omega)
  · exact write_of_lt (by omega)

/-- Reading a word past a store of another word. -/
theorem get32_put32_of_disjoint {m : Mem} {o o' : ℕ} {v : BitVec 32}
    (h : o + 4 ≤ o' ∨ o' + 4 ≤ o) : (m.put32 o v).get32 o' = m.get32 o' :=
  get32_write_of_disjoint h

/-- Two 16-bit words in a row are one 32-bit word. -/
theorem put16_put16 (m : Mem) (o : ℕ) (v w : BitVec 16) :
    (m.put16 o v).put16 (o + 2) w = m.put32 o (w ++ v) := by
  have hbytes : bytes16 v ++ bytes16 w = bytes32 (w ++ v) := by
    simp only [bytes16, bytes32, List.cons_append, List.nil_append, List.cons.injEq, and_true]
    refine ⟨?_, ?_, ?_, ?_⟩
    all_goals
      apply BitVec.eq_of_getLsbD_eq
      intro i hi
      simp only [BitVec.getLsbD_extractLsb', BitVec.getLsbD_append]
      grind
  rw [put32, ← hbytes, ← write_append]
  rfl

/-! ### Strings of bytes at an offset -/

/-- The bytes `bs` stand at `o`, `o + 1`, …. -/
def Contains (m : Mem) (o : ℕ) (bs : List (BitVec 8)) : Prop :=
  (List.range bs.length).map (fun j => m (o + j)) = bs

instance (m : Mem) (o : ℕ) (bs : List (BitVec 8)) : Decidable (m.Contains o bs) :=
  inferInstanceAs (Decidable (_ = _))

theorem contains_iff {m : Mem} {o : ℕ} {bs : List (BitVec 8)} :
    m.Contains o bs ↔ ∀ j (h : j < bs.length), m (o + j) = bs[j] := by
  rw [Contains, List.ext_getElem_iff]
  simp

/-- What has been stored is there. -/
theorem contains_write (m : Mem) (o : ℕ) (bs : List (BitVec 8)) : (m.write o bs).Contains o bs :=
  contains_iff.2 fun _ h => write_get h

/-! ### Agreement from an offset on -/

/-- The memories agree at `o` and above. -/
def AgreeFrom (o : ℕ) (m m' : Mem) : Prop := ∀ i, o ≤ i → m i = m' i

theorem AgreeFrom.refl (o : ℕ) (m : Mem) : AgreeFrom o m m := fun _ _ => rfl

theorem AgreeFrom.trans {o : ℕ} {m₁ m₂ m₃ : Mem} (h : AgreeFrom o m₁ m₂)
    (h' : AgreeFrom o m₂ m₃) : AgreeFrom o m₁ m₃ :=
  fun i hi => (h i hi).trans (h' i hi)

theorem AgreeFrom.mono {o o' : ℕ} (ho : o ≤ o') {m m' : Mem} (h : AgreeFrom o m m') :
    AgreeFrom o' m m' :=
  fun i hi => h i (ho.trans hi)

/-- A word stored below the offset keeps the agreement. -/
theorem agreeFrom_put32 {o o' : ℕ} (h : o' + 4 ≤ o) (m : Mem) (v : BitVec 32) :
    AgreeFrom o (m.put32 o' v) m :=
  fun _ hi => write_of_ge (by simp; omega)

/-- Words at or above the offset are the same. -/
theorem AgreeFrom.get32_eq {o o' : ℕ} {m m' : Mem} (h : AgreeFrom o m m') (ho : o ≤ o') :
    m.get32 o' = m'.get32 o' :=
  get32_congr fun i hi _ => h i (by omega)

/-- So are strings. -/
theorem AgreeFrom.contains {o o' : ℕ} {m m' : Mem} (h : AgreeFrom o m m') (ho : o ≤ o')
    {bs : List (BitVec 8)} (hm : m'.Contains o' bs) : m.Contains o' bs := by
  refine contains_iff.2 fun j hj => ?_
  rw [← contains_iff.1 hm j hj]
  exact h (o' + j) (by omega)

end Mem

end Bytes
