import Mathlib.Data.List.Basic
import Mathlib.Tactic

/-! # Byte memory made of separate objects

A pointer is an object and an offset into it; distinct objects never overlap. `write`
stores a block of bytes, `bytes` reads one. -/
namespace P4Switch.Lib.Memory

structure Ptr (ρ : Type*) where
  region : ρ
  off : Nat
  deriving DecidableEq, Repr

def Ptr.add {ρ : Type*} (p : Ptr ρ) (n : Nat) : Ptr ρ := { p with off := p.off + n }

def Ptr.sub {ρ : Type*} (p : Ptr ρ) (n : Nat) : Ptr ρ := { p with off := p.off - n }

abbrev Mem (ρ : Type*) := Ptr ρ → UInt8

section
variable {ρ : Type*}

@[simp] theorem Ptr.add_region (p : Ptr ρ) (n : Nat) : (p.add n).region = p.region := rfl

@[simp] theorem Ptr.add_off (p : Ptr ρ) (n : Nat) : (p.add n).off = p.off + n := rfl

@[simp] theorem Ptr.add_add (p : Ptr ρ) (m n : Nat) : (p.add m).add n = p.add (m + n) := by
  simp [Ptr.add, Nat.add_assoc]

@[simp] theorem Ptr.add_zero (p : Ptr ρ) : p.add 0 = p := rfl

/-- The `n` bytes at `p`. -/
def Mem.bytes (m : Mem ρ) (p : Ptr ρ) (n : Nat) : List UInt8 := (List.range n).map fun k => m (p.add k)

/-- The two-byte field at `k` in network byte order. -/
def be16 (f : Nat → UInt8) (k : Nat) : UInt16 :=
  UInt16.ofNat ((f k).toNat * 2 ^ 8 + (f (k + 1)).toNat)

/-- The four-byte field at `k` in network byte order. -/
def be32 (f : Nat → UInt8) (k : Nat) : UInt32 :=
  UInt32.ofNat ((f k).toNat * 2 ^ 24 + (f (k + 1)).toNat * 2 ^ 16 + (f (k + 2)).toNat * 2 ^ 8 +
    (f (k + 3)).toNat)

/-- The field at a pointer. -/
def Mem.be16 (m : Mem ρ) (p : Ptr ρ) : UInt16 := Memory.be16 (fun k => m (p.add k)) 0

def Mem.be32 (m : Mem ρ) (p : Ptr ρ) : UInt32 := Memory.be32 (fun k => m (p.add k)) 0

theorem be16_congr {f g : Nat → UInt8} {j k : Nat} (h : ∀ d < 2, f (j + d) = g (k + d)) :
    be16 f j = be16 g k := by
  have h0 := h 0 (by decide)
  have h1 := h 1 (by decide)
  simp only [Nat.add_zero] at h0
  simp [be16, h0, h1]

theorem be32_congr {f g : Nat → UInt8} {j k : Nat} (h : ∀ d < 4, f (j + d) = g (k + d)) :
    be32 f j = be32 g k := by
  have h0 := h 0 (by decide)
  have h1 := h 1 (by decide)
  have h2 := h 2 (by decide)
  have h3 := h 3 (by decide)
  simp only [Nat.add_zero] at h0
  simp [be32, h0, h1, h2, h3]

/-- The bytes of `x` in network byte order. -/
def beBytes (x : UInt32) : List UInt8 :=
  [UInt8.ofNat (x.toNat / 2 ^ 24), UInt8.ofNat (x.toNat / 2 ^ 16), UInt8.ofNat (x.toNat / 2 ^ 8),
    UInt8.ofNat x.toNat]

/-- Reading back what was stored. -/
theorem be32_beBytes (x : UInt32) : be32 ((beBytes x).getD · 0) 0 = x := by
  have hx := x.toNat_lt
  apply UInt32.toNat_inj.mp
  simp only [be32, beBytes, List.getD_cons_zero, List.getD_cons_succ, UInt8.toNat_ofNat',
    UInt32.toNat_ofNat']
  omega

/-- Storing what was read. -/
theorem beBytes_be32 (f : Nat → UInt8) {k : Nat} (hk : k < 4) :
    (beBytes (be32 f 0)).getD k 0 = f k := by
  have h0 := (f 0).toNat_lt
  have h1 := (f 1).toNat_lt
  have h2 := (f 2).toNat_lt
  have h3 := (f 3).toNat_lt
  apply UInt8.toNat_inj.mp
  have hcases : k = 0 ∨ k = 1 ∨ k = 2 ∨ k = 3 := by omega
  rcases hcases with rfl | rfl | rfl | rfl
  all_goals
    simp only [be32, beBytes, List.getD_cons_zero, List.getD_cons_succ, UInt8.toNat_ofNat',
      UInt32.toNat_ofNat', Nat.zero_add]
    omega

variable [DecidableEq ρ]

/-- `memcpy` of the block `bs` to `p`. -/
def Mem.write (m : Mem ρ) (p : Ptr ρ) (bs : List UInt8) : Mem ρ := fun q =>
  if q.region = p.region ∧ p.off ≤ q.off ∧ q.off < p.off + bs.length then bs.getD (q.off - p.off) 0
  else m q

theorem Mem.write_region {m : Mem ρ} {p q : Ptr ρ} {bs : List UInt8} (h : q.region ≠ p.region) :
    m.write p bs q = m q := by
  simp [Mem.write, h]

theorem Mem.write_changed {m : Mem ρ} {p q : Ptr ρ} {bs : List UInt8} (h : m.write p bs q ≠ m q) :
    q.region = p.region ∧ p.off ≤ q.off ∧ q.off < p.off + bs.length := by
  by_contra hc
  exact h (if_neg hc)

end

end P4Switch.Lib.Memory
