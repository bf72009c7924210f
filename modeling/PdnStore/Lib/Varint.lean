import Mathlib.Data.Fin.Basic
import Mathlib.Algebra.GroupWithZero.Nat

/-!
# Varints and lists behind their length

Bytes as `Fin 256`. A number is written seven bits a byte, lowest first, all bytes but the last with the high
bit set. A reader takes what it reads off the front of the bytes and hands back the rest, so readers compose:
`Reads w r a` says that `r` gives `a` back from whatever begins with what `w` wrote for it. A list is its
length and then its elements.
-/

namespace Varint

local instance neZeroByte : NeZero 256 := ⟨by decide⟩

variable {α : Type*}

/-- Off the front of the bytes, and the rest. -/
abbrev Reader (α : Type*) := List (Fin 256) → Option (α × List (Fin 256))

/-- The reader takes exactly what was written for `a`. -/
def Reads (write : α → List (Fin 256)) (read : Reader α) (a : α) : Prop :=
  ∀ rest, read (write a ++ rest) = some (a, rest)

/-- Seven bits a byte, lowest first. -/
def writeNat (n : Nat) : List (Fin 256) :=
  if n < 128 then [Fin.ofNat 256 n] else Fin.ofNat 256 (n % 128 + 128) :: writeNat (n / 128)
termination_by n
decreasing_by omega

def readNat : Reader Nat
  | [] => none
  | b :: bytes =>
    if b.val < 128 then some (b.val, bytes)
    else (readNat bytes).map fun (n, rest) => (b.val - 128 + 128 * n, rest)

theorem reads_nat (n : Nat) : Reads writeNat readNat n := by
  intro rest
  induction n using writeNat.induct with
  | case1 n hlt =>
    have hval : (Fin.ofNat 256 n).val = n := Nat.mod_eq_of_lt (by omega)
    rw [writeNat, if_pos hlt, List.singleton_append, readNat, hval, if_pos hlt]
  | case2 n hge ih =>
    have hval : (Fin.ofNat 256 (n % 128 + 128)).val = n % 128 + 128 := Nat.mod_eq_of_lt (by omega)
    have hbig : ¬ n % 128 + 128 < 128 := by omega
    rw [writeNat, if_neg hge]
    simp only [List.cons_append, readNat, hval, if_neg hbig, ih, Option.map_some, Option.some.injEq,
      Prod.mk.injEq, and_true]
    omega

/-- The elements, as many as were written. -/
def readMany (read : Reader α) : Nat → Reader (List α)
  | 0, bytes => some ([], bytes)
  | n + 1, bytes =>
    match read bytes with
    | none => none
    | some (a, bytes) => (readMany read n bytes).map fun (as, rest) => (a :: as, rest)

/-- The length of the list, then its elements. -/
def writeList (write : α → List (Fin 256)) (as : List α) : List (Fin 256) :=
  writeNat as.length ++ as.flatMap write

def readList (read : Reader α) : Reader (List α) := fun bytes =>
  match readNat bytes with
  | none => none
  | some (n, bytes) => readMany read n bytes

theorem reads_list {write : α → List (Fin 256)} {read : Reader α} {as : List α}
    (h : ∀ a ∈ as, Reads write read a) : Reads (writeList write) (readList read) as := by
  intro rest
  rw [writeList, List.append_assoc, readList, reads_nat]
  show readMany read as.length (as.flatMap write ++ rest) = some (as, rest)
  induction as with
  | nil => rfl
  | cons a as ih =>
    have ih := ih fun b hb => h b (.tail _ hb)
    rw [List.flatMap_cons, List.append_assoc, List.length_cons, readMany, h a (.head _)]
    simp only [ih, Option.map_some]

end Varint
