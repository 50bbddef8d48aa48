/-
**The command line (`GetOptions`).**

The scanner walks over the command tail with an index that it advances at the loop head, at a switch
letter and at the second letter of a `/QQ`.  Here it walks over the memory that holds the tail, and
a read behind the end of that memory is an outcome of its own.

Main definitions:

* `Verbosity`, `Options` — the statics that the switches set;
* `getOptionsLoop`, `getOptions` — the scanner, on memory and on a terminated string.

Main results:

* `getOptionsLoop_isSome` — the scanner does not read behind a terminator.
-/

import Vbsmount.Dos
import Vbsmount.Lib.CString

set_option relaxedAutoImplicit false
set_option autoImplicit false

namespace Vbsmount

open CString

/-- `Verbosity`. -/
inductive Verbosity
  | silent
  | quiet
  | normal
  | verbose
  deriving DecidableEq

/-- The statics `verbosity`, `uninstall` and `testOnly`. -/
structure Options where
  verbosity : Verbosity
  uninstall : BitVec 16
  testOnly : BitVec 8
  deriving DecidableEq

/-- The statics as the program starts. -/
def Options.start : Options := ⟨.normal, 0, 0⟩

/-- `toupper`. -/
def toupper (c : BitVec 8) : BitVec 8 := if 0x61 ≤ c ∧ c ≤ 0x7A then c - 0x20 else c

/-- The loop of `GetOptions` from the place where `argIndex` stands. -/
def getOptionsLoop : List (BitVec 8) → ℕ → Options → Option (BitVec 16 × Options)
  | [], _, _ => none
  | c :: tail, vset, o =>
      if c = chNul then some (0, o)
      -- ' ', '\t'
      else if c = 0x20 ∨ c = 0x09 then getOptionsLoop tail vset o
      -- '/', '-'
      else if c = 0x2F ∨ c = 0x2D then
        match tail with
        | [] => none
        | d :: tail =>
            -- 'H', '?'
            if toupper d = 0x48 ∨ toupper d = 0x3F then some (1, o)
            -- 'Q'
            else if toupper d = 0x51 then
              if vset ≠ 0 then some (2, o)
              else
                match tail with
                | [] => none
                | q :: tail' =>
                    if toupper q = 0x51 then
                      getOptionsLoop tail' (vset + 1) { o with verbosity := .silent }
                    else getOptionsLoop (q :: tail') (vset + 1) { o with verbosity := .quiet }
            -- 'V'
            else if toupper d = 0x56 then
              if vset ≠ 0 then some (2, o)
              else getOptionsLoop tail (vset + 1) { o with verbosity := .verbose }
            -- 'U'
            else if toupper d = 0x55 then
              getOptionsLoop tail vset { o with uninstall := o.uninstall + 1 }
            -- 'T'
            else if toupper d = 0x54 then
              getOptionsLoop tail vset { o with testOnly := o.testOnly + 1 }
            else some (2, o)
      else some (2, o)

theorem chNul_mem_tail {c : BitVec 8} {tail : List (BitVec 8)} (h : chNul ∈ c :: tail)
    (hc : ¬ c = chNul) : chNul ∈ tail :=
  (List.mem_cons.1 h).resolve_left fun h => hc h.symm

/-- A switch letter is not the terminator. -/
theorem chNul_mem_switch {d x : BitVec 8} {tail : List (BitVec 8)} (h : chNul ∈ d :: tail)
    (hd : toupper d = x) (hx : x ≠ chNul) : chNul ∈ tail := by
  refine chNul_mem_tail h fun hnul => hx ?_
  rw [← hd, hnul]
  rfl

/-- **The scanner does not read behind a terminator.** -/
theorem getOptionsLoop_isSome (tail : List (BitVec 8)) (vset : ℕ) (o : Options)
    (hnul : chNul ∈ tail) : (getOptionsLoop tail vset o).isSome := by
  fun_induction getOptionsLoop tail vset o with
  | case1 => cases hnul
  | case2 => rfl
  | case3 c tail vset o hc hblank ih => exact ih (chNul_mem_tail hnul hc)
  | case4 c vset o hc => cases chNul_mem_tail hnul hc
  | case5 => rfl
  | case6 => rfl
  | case7 c vset o hc _ _ d _ hq => cases chNul_mem_switch (chNul_mem_tail hnul hc) hq (by decide)
  | case8 c vset o hc _ _ d _ hq _ q tail hq' ih =>
      exact ih (chNul_mem_switch (chNul_mem_switch (chNul_mem_tail hnul hc) hq (by decide)) hq'
        (by decide))
  | case9 c vset o hc _ _ d _ hq _ q tail _ ih =>
      exact ih (chNul_mem_switch (chNul_mem_tail hnul hc) hq (by decide))
  | case10 => rfl
  | case11 c vset o hc _ _ d tail _ _ hv _ ih =>
      exact ih (chNul_mem_switch (chNul_mem_tail hnul hc) hv (by decide))
  | case12 c vset o hc _ _ d tail _ _ _ hu ih =>
      exact ih (chNul_mem_switch (chNul_mem_tail hnul hc) hu (by decide))
  | case13 c vset o hc _ _ d tail _ _ _ _ ht ih =>
      exact ih (chNul_mem_switch (chNul_mem_tail hnul hc) ht (by decide))
  | case14 => rfl
  | case15 => rfl

/-- `GetOptions`: 0, or 1 when help is asked for, or 2 when an option is invalid. -/
def getOptions (argString : Str chNul) (o : Options) : BitVec 16 × Options :=
  (getOptionsLoop (argString.mem []) 0 o).get
    (getOptionsLoop_isSome _ 0 o (List.mem_append_right _ (List.mem_cons_self ..)))

end Vbsmount
