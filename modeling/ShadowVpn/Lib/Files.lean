import Mathlib.Logic.Function.Basic
import ShadowVpn.Lib.Octets

/-! Files behind names: an open file stays the same file when its name goes to another one. Writing at
an offset, truncating creation and renaming. -/

namespace ShadowVpn.Lib.Files
open ShadowVpn.Lib.Octets

/-- The bytes of a chunk replace those at its place; a gap before it reads as zeros. -/
def writeAt (content : Bytes) (offset : Nat) (chunk : Bytes) : Bytes :=
  content.take offset ++ List.replicate (offset - content.length) 0 ++ chunk ++
    content.drop (offset + chunk.length)

/-- Names for files, which are numbered; the numbers from `next` on are free. -/
structure Volume (Name : Type) where
  names : Name → Option Nat
  data : Nat → Bytes
  next : Nat
  known : ∀ name file, names name = some file → file < next

namespace Volume

variable {Name : Type}

def empty : Volume Name := ⟨fun _ => none, fun _ => [], 0, fun _ _ found => nomatch found⟩

/-- The length of the named file. -/
def size (volume : Volume Name) (name : Name) : Option Nat :=
  (volume.names name).map fun file => (volume.data file).length

def write (volume : Volume Name) (file offset : Nat) (chunk : Bytes) : Volume Name :=
  { volume with data := Function.update volume.data file (writeAt (volume.data file) offset chunk) }

@[simp] theorem write_names (volume : Volume Name) (file offset : Nat) (chunk : Bytes) :
    (volume.write file offset chunk).names = volume.names := rfl

@[simp] theorem write_next (volume : Volume Name) (file offset : Nat) (chunk : Bytes) :
    (volume.write file offset chunk).next = volume.next := rfl

@[simp] theorem write_data (volume : Volume Name) (file offset : Nat) (chunk : Bytes) :
    (volume.write file offset chunk).data file = writeAt (volume.data file) offset chunk :=
  Function.update_self _ _ _

theorem write_data_other (volume : Volume Name) {file other : Nat} (offset : Nat) (chunk : Bytes)
    (differ : other ≠ file) : (volume.write file offset chunk).data other = volume.data other :=
  Function.update_of_ne differ _ _

/-- The number of the named file, or of a new one. -/
def target (volume : Volume Name) (name : Name) : Nat := (volume.names name).getD volume.next

/-- The file that is opened had the name, or is a new one. -/
theorem target_cases (volume : Volume Name) (name : Name) :
    volume.names name = some (volume.target name) ∨ volume.names name = none ∧ volume.target name = volume.next := by
  unfold target
  cases found : volume.names name with
  | none => exact .inr ⟨rfl, rfl⟩
  | some file => exact .inl rfl

variable [DecidableEq Name]

/-- Opening for writing: the file is there afterwards, and empty. -/
def create (volume : Volume Name) (name : Name) : Volume Name where
  names := Function.update volume.names name (some (volume.target name))
  data := Function.update volume.data (volume.target name) []
  next := max volume.next (volume.target name + 1)
  known := by
    intro other file found
    by_cases same : other = name
    · subst same
      rw [Function.update_self] at found
      obtain rfl := Option.some.inj found
      omega
    · rw [Function.update_of_ne same] at found
      exact Nat.lt_of_lt_of_le (volume.known other file found) (Nat.le_max_left _ _)

/-- The file takes the new name and loses the old one; what had the new name loses it. -/
def rename (volume : Volume Name) (old new : Name) : Option (Volume Name) :=
  match moved : volume.names old with
  | none => none
  | some file =>
    some
      { volume with
        names := Function.update (Function.update volume.names old none) new (some file)
        known := by
          intro name other found
          by_cases last : name = new
          · subst last
            rw [Function.update_self] at found
            exact Option.some.inj found ▸ volume.known old file moved
          · rw [Function.update_of_ne last] at found
            by_cases first : name = old
            · subst first
              rw [Function.update_self] at found
              cases found
            · rw [Function.update_of_ne first] at found
              exact volume.known name other found }

@[simp] theorem create_names (volume : Volume Name) (name : Name) :
    (volume.create name).names name = some (volume.target name) := Function.update_self _ _ _

theorem create_names_other (volume : Volume Name) {name other : Name} (differ : other ≠ name) :
    (volume.create name).names other = volume.names other := Function.update_of_ne differ _ _

@[simp] theorem create_data (volume : Volume Name) (name : Name) :
    (volume.create name).data (volume.target name) = [] := Function.update_self _ _ _

theorem create_data_other (volume : Volume Name) (name : Name) {file : Nat} (differ : file ≠ volume.target name) :
    (volume.create name).data file = volume.data file := Function.update_of_ne differ _ _

/-- A name without a file gets a new one. -/
theorem create_new {volume : Volume Name} {name : Name} (absent : volume.names name = none) :
    volume.target name = volume.next ∧ (volume.create name).next = volume.next + 1 := by
  have target : volume.target name = volume.next := by rw [Volume.target, absent, Option.getD_none]
  refine ⟨target, ?_⟩
  change max volume.next (volume.target name + 1) = volume.next + 1
  rw [target]
  exact Nat.max_eq_right (Nat.le_succ _)

theorem next_le_create (volume : Volume Name) (name : Name) : volume.next ≤ (volume.create name).next :=
  Nat.le_max_left _ _

theorem rename_some {volume renamed : Volume Name} {old new : Name} (done : volume.rename old new = some renamed) :
    ∃ file, volume.names old = some file ∧ renamed.data = volume.data ∧ renamed.next = volume.next ∧
      renamed.names = Function.update (Function.update volume.names old none) new (some file) := by
  unfold rename at done
  split at done
  · cases done
  · next file moved =>
    rw [← Option.some.inj done]
    exact ⟨file, moved, rfl, rfl, rfl⟩

end Volume

section Appending

variable {Name : Type}

theorem writeAt_end (content chunk : Bytes) : writeAt content content.length chunk = content ++ chunk := by
  rw [writeAt, List.take_length, Nat.sub_self, List.replicate_zero, List.append_nil,
    List.drop_eq_nil_of_le (Nat.le_add_right _ _), List.append_nil]

/-- A write through a handle that appends. -/
def Volume.append (volume : Volume Name) (file : Nat) (chunk : Bytes) : Volume Name :=
  volume.write file (volume.data file).length chunk

@[simp] theorem Volume.append_data (volume : Volume Name) (file : Nat) (chunk : Bytes) :
    (volume.append file chunk).data file = volume.data file ++ chunk := by
  rw [append, write_data, writeAt_end]

theorem Volume.append_data_other (volume : Volume Name) {file other : Nat} (chunk : Bytes) (differ : other ≠ file) :
    (volume.append file chunk).data other = volume.data other := write_data_other volume _ chunk differ

variable [DecidableEq Name]

/-- Opening without truncating: a file that is not there is made. -/
def Volume.openAppend (volume : Volume Name) (name : Name) : Volume Name :=
  match volume.names name with
  | some _ => volume
  | none => volume.create name

theorem Volume.openAppend_cases (volume : Volume Name) (name : Name) :
    (volume.names name = some (volume.target name) ∧ volume.openAppend name = volume) ∨
      volume.names name = none ∧ volume.target name = volume.next ∧ volume.openAppend name = volume.create name := by
  unfold openAppend target
  cases found : volume.names name with
  | none => exact .inr ⟨rfl, rfl, rfl⟩
  | some file => exact .inl ⟨rfl, rfl⟩

end Appending

/-- Over a beginning of a text, a writer that continues it writes a longer beginning or what is there. -/
theorem writeAt_take (text : Bytes) (reached offset count : Nat) (inside : offset ≤ (text.take reached).length) :
    writeAt (text.take reached) offset ((text.drop offset).take count) = text.take (max reached (offset + count)) := by
  have noGap : offset - (text.take reached).length = 0 := Nat.sub_eq_zero_of_le inside
  rw [List.length_take] at inside
  have front : (text.take reached).take offset ++ (text.drop offset).take count = text.take (offset + count) := by
    rw [List.take_take, Nat.min_eq_left (by omega), List.take_add]
  rw [writeAt, noGap, List.replicate_zero, List.append_nil, front]
  have size : ((text.drop offset).take count).length = min count (text.length - offset) := by
    rw [List.length_take, List.length_drop]
  have cut : text.take (offset + count) = text.take (offset + min count (text.length - offset)) := by
    rw [List.take_eq_take_iff]
    omega
  rw [size, cut]
  by_cases behind : offset + min count (text.length - offset) ≤ reached
  · have whole := List.take_append_drop (offset + min count (text.length - offset)) (text.take reached)
    rw [List.take_take, Nat.min_eq_left behind] at whole
    rw [whole, List.take_eq_take_iff]
    omega
  · have none : (text.take reached).drop (offset + min count (text.length - offset)) = [] := by
      apply List.drop_eq_nil_of_le
      rw [List.length_take]
      omega
    rw [none, List.append_nil, List.take_eq_take_iff]
    omega

end ShadowVpn.Lib.Files
