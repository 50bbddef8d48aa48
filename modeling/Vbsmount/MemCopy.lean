/-
**The two copies of `miniclib.c` in one memory.**

`_fmemcpy_local` copies with string instructions: double words, then a word, then a byte.  How many
of each there are is kept in `CX` and in the carry flags of two shifts, one of which is saved over
the string instructions.  `memcpy_local` is a loop over bytes.  Here both run in one memory, with
pointers of 16 bits in their segments, so that the blocks may overlap; `Vbsmount.fmemcpyLocal` is
the same function between two buffers of their own.

Main definitions:

* `RealMode.Cpu` — memory, and the registers and flags that the copy uses;
* `RealMode.Cpu.shrCx`, `RealMode.Cpu.adcCx`, `RealMode.Cpu.repMovs` — the instructions;
* `RealMode.fmemcpyLocal`, `RealMode.memcpyLocal` — the functions;
* `RealMode.Cpu.At` — where the string instructions stand in their segments.

Main results:

* `RealMode.Cpu.At.repMovs` — a string instruction moves a run of cells;
* `RealMode.fmemcpyLocal_run`, `RealMode.memcpyLocal_run` — what the functions move;
* `RealMode.fmemcpyLocal_eq_memcpyLocal` — **the fast copy equals the plain one**;
* `RealMode.fmemcpyLocal_buffer` — the copy between two buffers is the one in memory.

The stack, on which registers and flags are saved, is left out.
-/

import Vbsmount.Lib.BlockMove
import Vbsmount.Miniclib

set_option relaxedAutoImplicit false
set_option autoImplicit false

namespace Vbsmount

namespace RealMode

open Bytes

/-! ### The processor -/

/-- The carry and the direction flag. -/
structure Flags where
  cf : Bool
  df : Bool

/-- Memory by linear address, and the registers of a string instruction. -/
structure Cpu where
  mem : Mem
  es : BitVec 16
  di : BitVec 16
  ds : BitVec 16
  si : BitVec 16
  cx : BitVec 16
  flags : Flags

/-- The linear address of an offset in a segment. -/
def linear (seg off : BitVec 16) : ℕ := (mkLinear seg off).toNat

namespace Cpu

/-- `shr cx,1`: the bit that falls out is the carry. -/
def shrCx (c : Cpu) : Cpu :=
  { c with cx := c.cx >>> 1, flags := { c.flags with cf := c.cx.getLsbD 0 } }

/-- `adc cx,cx`. -/
def adcCx (c : Cpu) : Cpu :=
  let sum := c.cx.toNat + c.cx.toNat + c.flags.cf.toNat
  { c with cx := BitVec.ofNat 16 sum, flags := { c.flags with cf := decide (2 ^ 16 ≤ sum) } }

/-- `popf`. -/
def popf (saved : Flags) (c : Cpu) : Cpu := { c with flags := saved }

/-- An index register behind the move of a cell of `w` bytes. -/
def advance (w : ℕ) (c : Cpu) (r : BitVec 16) : BitVec 16 :=
  if c.flags.df then r - BitVec.ofNat 16 w else r + BitVec.ofNat 16 w

/-- `movsd`, `movsw` and `movsb`, with `w` the size of the cell.  That the processor refuses a cell
across the end of a segment is left out. -/
def movs (w : ℕ) (c : Cpu) : Cpu :=
  { c with
    mem := BlockMove.cell w (linear c.es c.di) (linear c.ds c.si) c.mem
    di := c.advance w c.di
    si := c.advance w c.si }

/-- `rep`, which counts `CX` down. -/
def rep (ins : Cpu → Cpu) : ℕ → Cpu → Cpu
  | 0, c => c
  | n + 1, c => rep ins n { ins c with cx := (ins c).cx - 1 }

def repMovs (w : ℕ) (c : Cpu) : Cpu := rep (movs w) c.cx.toNat c

end Cpu

/-! ### The functions -/

/-- `_fmemcpy_local`. -/
def fmemcpyLocal (m : Mem) (flags : Flags) (dst src : FarPtr) (num : BitVec 16) : Mem :=
  -- mov cx, num; les di, d; lds si, s
  let c : Cpu := {
    mem := m
    es := dst.extractLsb' 16 16
    di := dst.extractLsb' 0 16
    ds := src.extractLsb' 16 16
    si := src.extractLsb' 0 16
    cx := num
    flags := flags }
  let c := c.shrCx
  -- pushf
  let saved := c.flags
  let c := c.shrCx
  let c := c.repMovs 4
  let c := c.adcCx
  let c := c.repMovs 2
  let c := c.popf saved
  let c := c.adcCx
  let c := c.repMovs 1
  c.mem

/-- The loop of `memcpy_local`, whose pointers are near ones. -/
def memcpyLoop (ds : BitVec 16) : ℕ → BitVec 16 → BitVec 16 → Mem → Mem
  | 0, _, _, m => m
  | num + 1, d, s, m =>
      memcpyLoop ds num (d + 1) (s + 1) (Function.update m (linear ds d) (m (linear ds s)))

/-- `memcpy_local`, in data segment `ds`: the pointer it returns, and memory. -/
def memcpyLocal (m : Mem) (ds dst src num : BitVec 16) : BitVec 16 × Mem :=
  (dst, memcpyLoop ds num.toNat dst src m)

/-! ### Addresses -/

theorem linear_eq (seg off : BitVec 16) : linear seg off = seg.toNat * 16 + off.toNat := by
  have hseg := seg.isLt
  have hoff := off.isLt
  simp only [linear, mkLinear, BitVec.toNat_add, BitVec.toNat_shiftLeft, BitVec.toNat_setWidth,
    Nat.shiftLeft_eq]
  omega

/-- An offset that has not run past the end of the segment. -/
theorem linear_ofNat (seg : BitVec 16) {o : ℕ} (h : o < 2 ^ 16) :
    linear seg (BitVec.ofNat 16 o) = linear seg 0 + o := by
  rw [linear_eq, linear_eq, BitVec.toNat_ofNat, Nat.mod_eq_of_lt h]
  rfl

theorem linear_add_toNat (seg off : BitVec 16) : linear seg 0 + off.toNat = linear seg off := by
  rw [← linear_ofNat seg off.isLt, BitVec.ofNat_toNat, BitVec.setWidth_eq]

/-! ### String instructions -/

namespace Cpu

/-- The string instructions go upwards, from `ds:s` to `es:d`, and have left `m`. -/
structure At (es ds : BitVec 16) (d s : ℕ) (m : Mem) (c : Cpu) : Prop where
  es : c.es = es
  ds : c.ds = ds
  di : c.di = BitVec.ofNat 16 d
  si : c.si = BitVec.ofNat 16 s
  df : c.flags.df = false
  mem : c.mem = m

section

variable {es ds : BitVec 16} {d s w : ℕ} {m : Mem} {c : Cpu}

theorem At.shrCx (h : At es ds d s m c) : At es ds d s m c.shrCx :=
  ⟨h.es, h.ds, h.di, h.si, h.df, h.mem⟩

theorem At.adcCx (h : At es ds d s m c) : At es ds d s m c.adcCx :=
  ⟨h.es, h.ds, h.di, h.si, h.df, h.mem⟩

theorem At.popf (h : At es ds d s m c) {saved : Flags} (hdf : saved.df = false) :
    At es ds d s m (c.popf saved) :=
  ⟨h.es, h.ds, h.di, h.si, hdf, h.mem⟩

/-- The step: one cell. -/
theorem At.movs (h : At es ds d s m c) (hd : d < 2 ^ 16) (hs : s < 2 ^ 16) :
    At es ds (d + w) (s + w) (BlockMove.cell w (linear es 0 + d) (linear ds 0 + s) m)
      (c.movs w) where
  es := h.es
  ds := h.ds
  di := by simp [Cpu.movs, advance, h.df, h.di, BitVec.ofNat_add]
  si := by simp [Cpu.movs, advance, h.df, h.si, BitVec.ofNat_add]
  df := h.df
  mem := by rw [Cpu.movs, h.es, h.ds, h.di, h.si, h.mem, linear_ofNat es hd, linear_ofNat ds hs]

/-- The run: a number of cells. -/
theorem At.rep (hw : 0 < w) (n : ℕ) (h : At es ds d s m c) (hd : d + n * w ≤ 2 ^ 16)
    (hs : s + n * w ≤ 2 ^ 16) :
    At es ds (d + n * w) (s + n * w) (BlockMove.run w n (linear es 0 + d) (linear ds 0 + s) m)
        (rep (Cpu.movs w) n c) ∧
      (rep (Cpu.movs w) n c).flags = c.flags ∧
      (rep (Cpu.movs w) n c).cx = c.cx - BitVec.ofNat 16 n := by
  induction n generalizing c d s m with
  | zero => simpa [Cpu.rep, BlockMove.run] using h
  | succ n ih =>
      have hcount : (n + 1) * w = w + n * w := by ring
      rw [hcount, ← Nat.add_assoc] at hd hs ⊢
      rw [← Nat.add_assoc]
      have hmovs := h.movs (w := w) (by omega) (by omega)
      have hstep : At es ds (d + w) (s + w) _ { c.movs w with cx := (c.movs w).cx - 1 } :=
        ⟨hmovs.es, hmovs.ds, hmovs.di, hmovs.si, hmovs.df, hmovs.mem⟩
      obtain ⟨hat, hflags, hcx⟩ := ih hstep hd hs
      rw [← Nat.add_assoc (linear es 0), ← Nat.add_assoc (linear ds 0)] at hat
      refine ⟨hat, hflags, ?_⟩
      rw [BitVec.ofNat_add, BitVec.add_comm (BitVec.ofNat 16 n), ← BitVec.sub_sub]
      exact hcx

/-- **A string instruction moves a run of cells**, and leaves 0 in `CX`. -/
theorem At.repMovs (hw : 0 < w) {n : ℕ} (hn : c.cx.toNat = n) (h : At es ds d s m c)
    (hd : d + n * w ≤ 2 ^ 16) (hs : s + n * w ≤ 2 ^ 16) :
    At es ds (d + n * w) (s + n * w) (BlockMove.run w n (linear es 0 + d) (linear ds 0 + s) m)
        (c.repMovs w) ∧
      (c.repMovs w).flags = c.flags ∧ (c.repMovs w).cx = 0 := by
  obtain ⟨hat, hflags, hcx⟩ := h.rep hw n hd hs
  rw [Cpu.repMovs, hn]
  refine ⟨hat, hflags, ?_⟩
  rw [hcx, ← hn, BitVec.ofNat_toNat, BitVec.setWidth_eq, BitVec.sub_self]
  rfl

end

/-! ### Counts -/

theorem toNat_shrCx (c : Cpu) : c.shrCx.cx.toNat = c.cx.toNat / 2 := by
  simp [shrCx, Nat.shiftRight_eq_div_pow]

theorem cf_shrCx (c : Cpu) : c.shrCx.flags.cf.toNat = c.cx.toNat % 2 := by
  rw [shrCx, BitVec.getLsbD, Nat.toNat_testBit, Nat.pow_zero, Nat.div_one]

/-- `adc cx,cx` fetches the carry, when `CX` is 0. -/
theorem toNat_adcCx {c : Cpu} (h : c.cx = 0) : c.adcCx.cx.toNat = c.flags.cf.toNat := by
  have hcf := Bool.toNat_le c.flags.cf
  have hzero : (0 : BitVec 16).toNat = 0 := rfl
  rw [adcCx, h, hzero, BitVec.toNat_ofNat]
  omega

end Cpu

/-! ### The two copies -/

section Copies

variable {m : Mem} {num : BitVec 16}

/-- What `_fmemcpy_local` moves. -/
theorem fmemcpyLocal_run {flags : Flags} (hdf : flags.df = false) {es ds d s : BitVec 16}
    (hd : d.toNat + num.toNat ≤ 2 ^ 16) (hs : s.toNat + num.toNat ≤ 2 ^ 16) {q b₁ b₀ : ℕ}
    (hq : num.toNat / 2 / 2 = q) (hb₁ : num.toNat / 2 % 2 = b₁) (hb₀ : num.toNat % 2 = b₀) :
    fmemcpyLocal m flags (mkFp es d) (mkFp ds s) num =
      BlockMove.run 1 b₀ (linear es d + q * 4 + b₁ * 2) (linear ds s + q * 4 + b₁ * 2)
        (BlockMove.run 2 b₁ (linear es d + q * 4) (linear ds s + q * 4)
          (BlockMove.run 4 q (linear es d) (linear ds s) m)) := by
  have hstart : Cpu.At es ds d.toNat s.toNat m ⟨m, es, d, ds, s, num, flags⟩ :=
    ⟨rfl, rfl, by simp, by simp, hdf, rfl⟩
  generalize hc : (⟨m, es, d, ds, s, num, flags⟩ : Cpu) = c at hstart
  have hnum : c.cx = num := by rw [← hc]
  -- the double words
  obtain ⟨hat₄, hflags₄, hcx₄⟩ := hstart.shrCx.shrCx.repMovs (w := 4) (by omega) (n := q)
    (by rw [Cpu.toNat_shrCx, Cpu.toNat_shrCx, hnum, hq]) (by omega) (by omega)
  -- the word
  obtain ⟨hat₂, hflags₂, hcx₂⟩ := hat₄.adcCx.repMovs (w := 2) (by omega) (n := b₁)
    (by rw [Cpu.toNat_adcCx hcx₄, hflags₄, Cpu.cf_shrCx, Cpu.toNat_shrCx, hnum, hb₁])
    (by omega) (by omega)
  -- the byte
  replace hcx₂ : (Cpu.popf c.shrCx.flags _).cx = 0 := hcx₂
  obtain ⟨hat₁, -, -⟩ := (hat₂.popf hstart.shrCx.df).adcCx.repMovs (w := 1) (by omega) (n := b₀)
    (by rw [Cpu.toNat_adcCx hcx₂, Cpu.popf, Cpu.cf_shrCx, hnum, hb₀]) (by omega) (by omega)
  have hmem := hat₁.mem
  simp only [← Nat.add_assoc, linear_add_toNat] at hmem
  rw [← hmem, ← hc, fmemcpyLocal, mkFp, mkFp, BitVec.extractLsb'_append_eq_left,
    BitVec.extractLsb'_append_eq_right, BitVec.extractLsb'_append_eq_left,
    BitVec.extractLsb'_append_eq_right]

/-- It moves the bytes one after the other, if the destination does not begin inside the first cell
that is moved, behind its first byte. -/
theorem fmemcpyLocal_bytes {flags : Flags} (hdf : flags.df = false) {es ds d s : BitVec 16}
    (hd : d.toNat + num.toNat ≤ 2 ^ 16) (hs : s.toNat + num.toNat ≤ 2 ^ 16)
    (h : linear es d ≤ linear ds s ∨ linear ds s + min 4 num.toNat ≤ linear es d) :
    fmemcpyLocal m flags (mkFp es d) (mkFp ds s) num =
      BlockMove.run 1 num.toNat (linear es d) (linear ds s) m := by
  have hrun : fmemcpyLocal m flags (mkFp es d) (mkFp ds s) num = _ :=
    fmemcpyLocal_run hdf hd hs rfl rfl rfl
  have hnum : num.toNat / 2 / 2 * 4 + num.toNat / 2 % 2 * 2 + num.toNat % 2 = num.toNat := by omega
  generalize num.toNat / 2 / 2 = q at hrun hnum
  generalize num.toNat / 2 % 2 = b₁ at hrun hnum
  generalize num.toNat % 2 = b₀ at hrun hnum
  rw [BlockMove.run_eq_bytes (w := 4) q (by omega), BlockMove.run_eq_bytes (w := 2) b₁ (by omega)]
    at hrun
  -- three runs of bytes, each going on where the one before has ended
  have hjoin (b : ℕ) := BlockMove.run_add 1 (q * 4) b (linear es d) (linear ds s) m
  have hjoin' := BlockMove.run_add 1 (q * 4 + b₁ * 2) b₀ (linear es d) (linear ds s) m
  simp only [Nat.mul_one, ← Nat.add_assoc] at hjoin hjoin'
  rw [hrun, ← hnum, ← hjoin, hjoin']

/-- What the loop of `memcpy_local` moves. -/
theorem memcpyLoop_run (ds : BitVec 16) (n d s : ℕ) (hd : d + n ≤ 2 ^ 16) (hs : s + n ≤ 2 ^ 16) :
    memcpyLoop ds n (BitVec.ofNat 16 d) (BitVec.ofNat 16 s) m =
      BlockMove.run 1 n (linear ds 0 + d) (linear ds 0 + s) m := by
  induction n generalizing d s m with
  | zero => rfl
  | succ n ih =>
      have hnext := ih (m := BlockMove.cell 1 (linear ds 0 + d) (linear ds 0 + s) m) (d + 1) (s + 1)
        (by omega) (by omega)
      rw [memcpyLoop, linear_ofNat ds (by omega), linear_ofNat ds (by omega), ← BlockMove.cell_one]
      rw [BitVec.ofNat_add, BitVec.ofNat_add] at hnext
      exact hnext

theorem memcpyLocal_run {ds d s : BitVec 16} (hd : d.toNat + num.toNat ≤ 2 ^ 16)
    (hs : s.toNat + num.toNat ≤ 2 ^ 16) :
    (memcpyLocal m ds d s num).2 = BlockMove.run 1 num.toNat (linear ds d) (linear ds s) m := by
  have hrun := memcpyLoop_run (m := m) ds num.toNat d.toNat s.toNat hd hs
  rwa [linear_add_toNat, linear_add_toNat, BitVec.ofNat_toNat, BitVec.ofNat_toNat,
    BitVec.setWidth_eq, BitVec.setWidth_eq] at hrun

/-- **The fast copy equals the plain one**, for every memory and every number of bytes, if the blocks
do not run past the end of the segment and the destination does not begin at one of the three bytes
behind the first byte of the source. -/
theorem fmemcpyLocal_eq_memcpyLocal (m : Mem) (flags : Flags) (seg dst src num : BitVec 16)
    (hdf : flags.df = false) (hdst : dst.toNat + num.toNat ≤ 0x10000)
    (hsrc : src.toNat + num.toNat ≤ 0x10000)
    (h : dst.toNat ≤ src.toNat ∨ src.toNat + 4 ≤ dst.toNat) :
    fmemcpyLocal m flags (mkFp seg dst) (mkFp seg src) num = (memcpyLocal m seg dst src num).2 := by
  have hlinear : linear seg dst ≤ linear seg src ∨
      linear seg src + min 4 num.toNat ≤ linear seg dst := by
    rw [linear_eq, linear_eq]
    omega
  rw [fmemcpyLocal_bytes hdf hdst hsrc hlinear, memcpyLocal_run hdst hsrc]

/-- An overlapping copy of seven bytes, four bytes upwards. -/
theorem fmemcpyLocal_eq_memcpyLocal_overlap :
    fmemcpyLocal (fun i => BitVec.ofNat 8 i) ⟨false, false⟩ (mkFp 0x2000 0x14) (mkFp 0x2000 0x10) 7 =
      (memcpyLocal (fun i => BitVec.ofNat 8 i) 0x2000 0x14 0x10 7).2 :=
  fmemcpyLocal_eq_memcpyLocal _ _ _ _ _ _ rfl (by decide) (by decide) (by decide)

/-- One byte upwards, the byte loop repeats the first byte, and the double word does not. -/
example : fmemcpyLocal (fun i => BitVec.ofNat 8 i) ⟨false, false⟩ (mkFp 0 1) (mkFp 0 0) 4 2 = 1 ∧
    (memcpyLocal (fun i => BitVec.ofNat 8 i) 0 1 0 4).2 2 = 0 := by
  decide

/-- **The copy between two buffers is the one in memory**, seen from the destination, if the
destination does not begin inside the source, behind its first byte. -/
theorem fmemcpyLocal_buffer {flags : Flags} (hdf : flags.df = false) {es ds d s : BitVec 16}
    (hd : d.toNat + num.toNat ≤ 2 ^ 16) (hs : s.toNat + num.toNat ≤ 2 ^ 16)
    (h : linear es d ≤ linear ds s ∨ linear ds s + num.toNat ≤ linear es d) :
    (fun i => fmemcpyLocal m flags (mkFp es d) (mkFp ds s) num (linear es d + i)) =
      Vbsmount.fmemcpyLocal (fun i => m (linear es d + i)) (fun i => m (linear ds s + i)) num := by
  rw [Vbsmount.fmemcpyLocal_eq, fmemcpyLocal_bytes hdf hd hs (by omega),
    BlockMove.run_eq_cell num.toNat (by omega), Nat.mul_one]
  funext i
  by_cases hi : i < num.toNat
  · rw [if_pos hi, BlockMove.cell_of_mem (by omega) (by omega), Nat.add_sub_cancel_left]
  · rw [if_neg hi, BlockMove.cell_of_notMem (by omega)]

/-- Seven bytes, moved down by two inside of one segment. -/
theorem fmemcpyLocal_buffer_down :
    (fun i => fmemcpyLocal (fun i => BitVec.ofNat 8 i) ⟨false, false⟩ (mkFp 0x2000 0x10)
        (mkFp 0x2000 0x12) 7 (linear 0x2000 0x10 + i)) =
      Vbsmount.fmemcpyLocal (fun i => BitVec.ofNat 8 (linear 0x2000 0x10 + i))
        (fun i => BitVec.ofNat 8 (linear 0x2000 0x12 + i)) 7 :=
  fmemcpyLocal_buffer rfl (by decide) (by decide) (by decide)

end Copies

end RealMode

end Vbsmount
