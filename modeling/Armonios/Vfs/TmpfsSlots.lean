import Armonios.Vfs.Tmpfs
import Mathlib

/-!
# The slots of tmpfs

`kernel/tmpfs.c` on `g_tmpfs_files` itself, with the bytes of the slots that are not in use. A string is the bytes
at a pointer, and its name those before the first NUL (`cString`). `Vfs/Tmpfs.lean` has `none` for a slot that is
not in use.

* `tmpfsCall_shows`: every call does with the slots what it does with the files of `Vfs/Tmpfs.lean`.
-/

namespace Armonios

/-- The string at a pointer. -/
def cString (bytes : List UInt8) : Path := bytes.takeWhile (· ≠ 0)

/-- `tmpfs_file_t`. -/
structure TmpfsSlot where
  name : List UInt8
  data : List UInt8
  size : Nat
  used : Bool

abbrev TmpfsSlots := Vector TmpfsSlot tmpfsMaxFiles

namespace TmpfsSlots

/-- What `tmpfs_clear_file` leaves of any slot. -/
def tmpfsClearFile : TmpfsSlot := ⟨List.replicate tmpfsMaxName 0, List.replicate tmpfsMaxFileSize 0, 0, false⟩

def tmpfsReset : TmpfsSlots := Vector.replicate _ tmpfsClearFile

/-- `tmpfs_name_equals`. -/
def TmpfsNameEquals (left right : List UInt8) : Prop := cString left = cString right

instance (left right : List UInt8) : Decidable (TmpfsNameEquals left right) := by
  unfold TmpfsNameEquals; infer_instance

def tmpfsFindFile (name : List UInt8) (slots : TmpfsSlots) : Option Nat :=
  if cString name = [] then none
  else slots.toList.findIdx? fun slot => slot.used ∧ TmpfsNameEquals slot.name name

/-- `tmpfs_copy_name` from the byte `i` on, with the status and what is then in `dest`. -/
def tmpfsCopyName (dest : List UInt8) (i : Nat) : Path → Bool × List UInt8
  | [] => (true, dest.set i 0)
  | ch :: name => if tmpfsMaxName ≤ i + 1 then (false, dest) else tmpfsCopyName (dest.set i ch) (i + 1) name

def tmpfsCreate (name : List UInt8) (slots : TmpfsSlots) : Bool × TmpfsSlots :=
  if cString name = [] ∨ (tmpfsFindFile name slots).isSome = true then (false, slots)
  else
    match slots.toList.findIdx? fun slot => slot.used = false with
    | none => (false, slots)
    | some index =>
      let (ok, copied) := tmpfsCopyName tmpfsClearFile.name 0 (cString name)
      let slot := { tmpfsClearFile with name := copied }
      (ok, slots.setIfInBounds index (if ok then { slot with size := 0, used := true } else slot))

def tmpfsDelete (name : List UInt8) (slots : TmpfsSlots) : Bool × TmpfsSlots :=
  match tmpfsFindFile name slots with
  | none => (false, slots)
  | some index => (true, slots.setIfInBounds index tmpfsClearFile)

/-- `none` for the status −1, else `*bytes_written`. -/
def tmpfsWrite (name : List UInt8) (offset : Nat) (buffer : List UInt8) (slots : TmpfsSlots) :
    Option Nat × TmpfsSlots :=
  match tmpfsFindFile name slots with
  | none => (none, slots)
  | some index =>
    if tmpfsMaxFileSize < offset then (none, slots)
    else
      let file := slots.toList.getD index tmpfsClearFile
      let count := if tmpfsMaxFileSize - offset < buffer.length then tmpfsMaxFileSize - offset else buffer.length
      let written := { file with
        data := overlay offset (buffer.take count) file.data
        size := if file.size < offset + count then offset + count else file.size }
      (some count, slots.setIfInBounds index written)

/-- The bytes that are copied to the buffer. -/
def tmpfsRead (name : List UInt8) (offset capacity : Nat) (slots : TmpfsSlots) : Option (List UInt8) :=
  match tmpfsFindFile name slots with
  | none => none
  | some index =>
    let file := slots.toList.getD index tmpfsClearFile
    if file.size < offset then none
    else
      let count := if file.size - offset < capacity then file.size - offset else capacity
      some ((file.data.drop offset).take count)

def tmpfsStat (name : List UInt8) (slots : TmpfsSlots) : Option Nat :=
  (tmpfsFindFile name slots).map fun index => (slots.toList.getD index tmpfsClearFile).size

end TmpfsSlots

/-! ## The files of the slots -/

/-- The slot has this file, or is not in use. -/
def SlotShows (slot : TmpfsSlot) : Option TmpfsFile → Prop
  | none => slot.used = false
  | some file => slot.used = true ∧ cString slot.name = file.name ∧ slot.data = file.data ∧ slot.size = file.size

def SlotsShow (slots : TmpfsSlots) (t : Tmpfs) : Prop := List.Forall₂ SlotShows slots.toList t.files.toList

section Slots

variable {slots : TmpfsSlots} {t : Tmpfs} {slot : TmpfsSlot} {file : Option TmpfsFile} {name : List UInt8} {index : Nat}

theorem cString_append_zero {name rest : List UInt8} (h : (0 : UInt8) ∉ name) : cString (name ++ 0 :: rest) = name := by
  unfold cString
  rw [List.takeWhile_append_of_pos]
  · simp
  · intro ch hch
    simp only [ne_eq, decide_eq_true_eq]
    rintro rfl
    exact h hch

theorem zero_notMem_cString (bytes : List UInt8) : (0 : UInt8) ∉ cString bytes := by
  intro h
  have := List.mem_takeWhile_imp h
  simp at this

/-- The bytes of the name are stored, with a NUL, where there is room. -/
theorem tmpfsCopyName_spec (name : Path) (before rest : List UInt8) (hroom : before.length + rest.length = tmpfsMaxName)
    (hrest : rest ≠ []) :
    (before.length + name.length < tmpfsMaxName → ∃ tail,
      TmpfsSlots.tmpfsCopyName (before ++ rest) before.length name = (true, before ++ name ++ 0 :: tail)) ∧
    (tmpfsMaxName ≤ before.length + name.length →
      (TmpfsSlots.tmpfsCopyName (before ++ rest) before.length name).1 = false) := by
  induction name generalizing before rest with
  | nil =>
    obtain ⟨b, rest, rfl⟩ := List.exists_cons_of_ne_nil hrest
    rw [List.length_cons] at hroom
    refine ⟨fun _ => ⟨rest, ?_⟩, fun h => ?_⟩
    · simp [TmpfsSlots.tmpfsCopyName, List.set_append_right]
    · rw [List.length_nil] at h
      omega
  | cons ch name ih =>
    obtain ⟨b, rest, rfl⟩ := List.exists_cons_of_ne_nil hrest
    rw [List.length_cons] at hroom
    have hset : (before ++ b :: rest).set before.length ch = (before ++ [ch]) ++ rest := by
      simp [List.set_append_right]
    unfold TmpfsSlots.tmpfsCopyName
    by_cases hfull : tmpfsMaxName ≤ before.length + 1
    · rw [if_pos hfull]
      refine ⟨fun h => ?_, fun _ => rfl⟩
      rw [List.length_cons] at h
      omega
    · rw [if_neg hfull, hset]
      have hne : rest ≠ [] := by
        rintro rfl
        simp only [List.length_nil] at hroom
        omega
      obtain ⟨hfits, hlong⟩ := ih (before ++ [ch]) rest (by simp; omega) hne
      rw [List.length_append, List.length_singleton] at hfits hlong
      refine ⟨fun h => ?_, fun h => ?_⟩
      · obtain ⟨tail, htail⟩ := hfits (by rw [List.length_cons] at h; omega)
        exact ⟨tail, by rw [htail]; simp⟩
      · exact hlong (by rw [List.length_cons] at h; omega)

theorem findIdx?_shows {p : TmpfsSlot → Bool} {q : Option TmpfsFile → Bool} (h : SlotsShow slots t)
    (hpq : ∀ slot file, SlotShows slot file → p slot = q file) :
    slots.toList.findIdx? p = t.files.toList.findIdx? q := by
  unfold SlotsShow at h
  generalize slots.toList = l at h
  generalize t.files.toList = l' at h
  induction h with
  | nil => rfl
  | cons hshow _ ih => rw [List.findIdx?_cons, List.findIdx?_cons, hpq _ _ hshow, ih]

theorem tmpfsFindFile_shows (h : SlotsShow slots t) (name : List UInt8) :
    TmpfsSlots.tmpfsFindFile name slots = tmpfsFindFile t (cString name) := by
  unfold TmpfsSlots.tmpfsFindFile tmpfsFindFile
  split
  · rfl
  · refine findIdx?_shows h fun slot file hshow => ?_
    cases file with
    | none =>
      have hused : slot.used = false := hshow
      simp [hused]
    | some file =>
      obtain ⟨hused, hname, -⟩ := hshow
      simp [hused, hname, TmpfsSlots.TmpfsNameEquals]

theorem findFree_shows (h : SlotsShow slots t) :
    (slots.toList.findIdx? fun slot => slot.used = false) = t.files.toList.findIdx? Option.isNone := by
  refine findIdx?_shows h fun slot file hshow => ?_
  cases file with
  | none =>
    have hused : slot.used = false := hshow
    simp [hused]
  | some file => simp [hshow.1]

theorem SlotsShow.put (h : SlotsShow slots t) (hslot : SlotShows slot file) :
    SlotsShow (slots.setIfInBounds index slot) (t.putFile index file) := by
  unfold SlotsShow Tmpfs.putFile
  simp only [Vector.toList_setIfInBounds]
  unfold SlotsShow at h
  generalize slots.toList = l at h
  generalize t.files.toList = l' at h
  induction h generalizing index with
  | nil => exact .nil
  | cons hshow hrest ih =>
    cases index with
    | zero => exact .cons hslot hrest
    | succ index => exact .cons hshow ih

/-- The file at a place. -/
theorem SlotsShow.get (h : SlotsShow slots t) (hi : index < tmpfsMaxFiles) :
    SlotShows (slots.toList.getD index TmpfsSlots.tmpfsClearFile) (t.fileAt index) := by
  have hlen : slots.toList.length = tmpfsMaxFiles := by simp
  have hlen' : t.files.toList.length = tmpfsMaxFiles := by simp
  have hget := List.Forall₂.get h (i := index) (by omega) (by omega)
  have hfile : t.fileAt index = t.files.toList.get ⟨index, by omega⟩ := by
    simp [Tmpfs.fileAt, hi]
  rw [hfile, List.getD_eq_getElem _ _ (by omega)]
  exact hget

end Slots

/-! ## Calls -/

inductive TmpfsCall
  | create (name : List UInt8)
  | delete (name : List UInt8)
  | write (name : List UInt8) (offset : Nat) (buffer : List UInt8)
  | read (name : List UInt8) (offset capacity : Nat)
  | stat (name : List UInt8)

/-- The name of a call. -/
def TmpfsCall.name : TmpfsCall → List UInt8
  | create name | delete name | write name .. | read name .. | stat name => name

/-- What a call returns, with `*bytes_written`, the buffer or the size. -/
inductive TmpfsResult
  | failed
  | done
  | count (bytesWritten : Nat)
  | bytes (buffer : List UInt8)
  | size (size : Nat)
  deriving DecidableEq

def TmpfsCall.onSlots (slots : TmpfsSlots) : TmpfsCall → TmpfsResult × TmpfsSlots
  | create name =>
    (if (TmpfsSlots.tmpfsCreate name slots).1 then .done else .failed, (TmpfsSlots.tmpfsCreate name slots).2)
  | delete name =>
    (if (TmpfsSlots.tmpfsDelete name slots).1 then .done else .failed, (TmpfsSlots.tmpfsDelete name slots).2)
  | write name offset buffer =>
    (((TmpfsSlots.tmpfsWrite name offset buffer slots).1.map .count).getD .failed,
      (TmpfsSlots.tmpfsWrite name offset buffer slots).2)
  | read name offset capacity =>
    (((TmpfsSlots.tmpfsRead name offset capacity slots).map .bytes).getD .failed, slots)
  | stat name => (((TmpfsSlots.tmpfsStat name slots).map .size).getD .failed, slots)

/-- The result of a call of `Vfs/Tmpfs.lean`. -/
def tmpfsResult {α : Type} (m : TmpfsM α) (f : α → TmpfsResult) (t : Tmpfs) : TmpfsResult × Tmpfs :=
  match m t with
  | .ok a t => (f a, t)
  | .error _ t => (.failed, t)

def TmpfsCall.onFiles (t : Tmpfs) : TmpfsCall → TmpfsResult × Tmpfs
  | create name => tmpfsResult (tmpfsCreate (cString name)) (fun _ => .done) t
  | delete name => tmpfsResult (tmpfsDelete (cString name)) (fun _ => .done) t
  | write name offset buffer => tmpfsResult (tmpfsWrite (cString name) offset buffer) .count t
  | read name offset capacity => tmpfsResult (tmpfsRead (cString name) offset capacity) .bytes t
  | stat name => tmpfsResult (tmpfsStat (cString name)) .size t

section Calls

variable {slots : TmpfsSlots} {t : Tmpfs} {file : TmpfsFile} {name : Path} {index : Nat}

theorem tmpfsFindFile_some (h : tmpfsFindFile t name = some index) : index < tmpfsMaxFiles ∧ name ≠ [] ∧
    ∃ file, t.fileAt index = some file ∧ file.name = name := by
  unfold tmpfsFindFile at h
  split at h
  · cases h
  rename_i hname
  obtain ⟨hlt, hfound, -⟩ := List.findIdx?_eq_some_iff_getElem.mp h
  have hi : index < tmpfsMaxFiles := by simpa using hlt
  obtain ⟨file, hfile, hn⟩ := (Option.any_eq_true ..).mp hfound
  refine ⟨hi, hname, file, ?_, by simpa using hn⟩
  simp only [Vector.getElem_toList] at hfile
  simp [Tmpfs.fileAt, hi, hfile]

theorem tmpfsFindFile_none (h : tmpfsFindFile t name = none) (hname : name ≠ []) (index : Nat)
    (hfile : t.fileAt index = some file) : file.name ≠ name := by
  unfold tmpfsFindFile at h
  rw [if_neg hname, List.findIdx?_eq_none_iff] at h
  have hi : index < tmpfsMaxFiles := by
    by_contra hi
    simp [Tmpfs.fileAt, hi] at hfile
  have hmem : some file ∈ t.files.toList := by
    simp only [Tmpfs.fileAt, hi, Vector.getElem?_eq_getElem, Option.join_some] at hfile
    rw [← hfile, Vector.mem_toList_iff]
    exact Vector.getElem_mem hi
  simpa using h _ hmem

theorem tmpfsFileOf_none (h : tmpfsFindFile t name = none) : tmpfsFileOf name t = .error .fail t := by
  simp [tmpfsFileOf, bind, EStateM.bind, get, getThe, MonadStateOf.get, EStateM.get, h, throw, throwThe,
    MonadExceptOf.throw, EStateM.throw]

/-! Each call of `Vfs/Tmpfs.lean`, with the slot of its name. -/

theorem onFiles_delete_some {name : List UInt8} (h : TmpfsAt t (cString name) index file) :
    (TmpfsCall.delete name).onFiles t = (.done, t.putFile index none) := by
  simp [TmpfsCall.onFiles, tmpfsResult, tmpfsDelete, bind, EStateM.bind, h.fileOf, modify, modifyGet,
    MonadStateOf.modifyGet, EStateM.modifyGet]

theorem onFiles_write_some {name : List UInt8} {offset : Nat} {buffer : List UInt8}
    (h : TmpfsAt t (cString name) index file)
    (hoff : ¬ tmpfsMaxFileSize < offset) : (TmpfsCall.write name offset buffer).onFiles t =
      (.count (min buffer.length (tmpfsMaxFileSize - offset)), t.putFile index
        (some (file.store offset (buffer.take (tmpfsMaxFileSize - offset)) (tmpfs_fits hoff buffer)))) := by
  simp [TmpfsCall.onFiles, tmpfsResult, tmpfsWrite, bind, EStateM.bind, h.fileOf, hoff, modify, modifyGet,
    MonadStateOf.modifyGet, EStateM.modifyGet, pure, EStateM.pure]

theorem onFiles_write_far {name : List UInt8} {offset : Nat} {buffer : List UInt8}
    (h : TmpfsAt t (cString name) index file)
    (hoff : tmpfsMaxFileSize < offset) : (TmpfsCall.write name offset buffer).onFiles t = (.failed, t) := by
  simp [TmpfsCall.onFiles, tmpfsResult, tmpfsWrite, bind, EStateM.bind, h.fileOf, hoff, throw, throwThe,
    MonadExceptOf.throw, EStateM.throw]

theorem onFiles_read_some {name : List UInt8} {offset capacity : Nat} (h : TmpfsAt t (cString name) index file) :
    (TmpfsCall.read name offset capacity).onFiles t = (if file.size < offset then .failed
      else .bytes ((file.data.drop offset).take (min capacity (file.size - offset))), t) := by
  by_cases hoff : file.size < offset <;>
    simp [TmpfsCall.onFiles, tmpfsResult, tmpfsRead, bind, EStateM.bind, h.fileOf, hoff, throw, throwThe,
      MonadExceptOf.throw, EStateM.throw, pure, EStateM.pure]

theorem onFiles_stat_some {name : List UInt8} (h : TmpfsAt t (cString name) index file) :
    (TmpfsCall.stat name).onFiles t = (.size file.size, t) := by
  simp [TmpfsCall.onFiles, tmpfsResult, tmpfsStat, bind, EStateM.bind, h.fileOf, pure, EStateM.pure]

/-- No call but a creation does anything without a file of its name. -/
theorem onFiles_none {c : TmpfsCall} (h : tmpfsFindFile t (cString c.name) = none) (hc : ∀ name, c ≠ .create name) :
    c.onFiles t = (.failed, t) := by
  have hfile := tmpfsFileOf_none h
  cases c with
  | create name => exact absurd rfl (hc name)
  | delete name =>
    simp [TmpfsCall.onFiles, tmpfsResult, tmpfsDelete, bind, EStateM.bind,
      show tmpfsFileOf (cString name) t = _ from hfile]
  | write name offset buffer =>
    simp [TmpfsCall.onFiles, tmpfsResult, tmpfsWrite, bind, EStateM.bind,
      show tmpfsFileOf (cString name) t = _ from hfile]
  | read name offset capacity =>
    simp [TmpfsCall.onFiles, tmpfsResult, tmpfsRead, bind, EStateM.bind,
      show tmpfsFileOf (cString name) t = _ from hfile]
  | stat name =>
    simp [TmpfsCall.onFiles, tmpfsResult, tmpfsStat, bind, EStateM.bind,
      show tmpfsFileOf (cString name) t = _ from hfile]

/-- A creation takes the first free slot. -/
theorem onFiles_create (name : List UInt8) (t : Tmpfs) : (TmpfsCall.create name).onFiles t =
    if cString name = [] ∨ (tmpfsFindFile t (cString name)).isSome = true then (.failed, t)
    else
      match t.files.toList.findIdx? Option.isNone with
      | none => (.failed, t)
      | some index =>
        if tmpfsMaxName ≤ (cString name).length then (.failed, t)
        else (.done, t.putFile index (some (.new (cString name)))) := by
  unfold TmpfsCall.onFiles tmpfsResult tmpfsCreate
  simp only [bind, EStateM.bind, get, getThe, MonadStateOf.get, EStateM.get]
  by_cases hname : cString name = [] ∨ (tmpfsFindFile t (cString name)).isSome = true
  · simp [hname, throw, throwThe, MonadExceptOf.throw, EStateM.throw, EStateM.bind]
  simp only [hname, if_false]
  cases t.files.toList.findIdx? Option.isNone with
  | none => rfl
  | some index =>
    by_cases hlong : tmpfsMaxName ≤ (cString name).length
    · simp [hlong, throw, throwThe, MonadExceptOf.throw, EStateM.throw, EStateM.bind]
    · simp [hlong, set, EStateM.set]

end Calls

/-! ## Slots and files -/

section Shows

variable {slots : TmpfsSlots} {t : Tmpfs}

/-- The slot and the file of a name. -/
theorem SlotsShow.found (h : SlotsShow slots t) (name : List UInt8) :
    (TmpfsSlots.tmpfsFindFile name slots = none ∧ tmpfsFindFile t (cString name) = none) ∨
      ∃ index file, TmpfsSlots.tmpfsFindFile name slots = some index ∧ TmpfsAt t (cString name) index file ∧
        SlotShows (slots.toList.getD index TmpfsSlots.tmpfsClearFile) (some file) := by
  have hfind := tmpfsFindFile_shows h name
  cases hf : tmpfsFindFile t (cString name) with
  | none => exact .inl ⟨hfind.trans hf, rfl⟩
  | some index =>
    obtain ⟨hi, -, file, hfile, -⟩ := tmpfsFindFile_some hf
    exact .inr ⟨index, file, hfind.trans hf, ⟨hf, hfile⟩, hfile ▸ h.get hi⟩

theorem tmpfsCreate_shows (h : SlotsShow slots t) (name : List UInt8) :
    ((TmpfsCall.create name).onSlots slots).1 = ((TmpfsCall.create name).onFiles t).1 ∧
      SlotsShow ((TmpfsCall.create name).onSlots slots).2 ((TmpfsCall.create name).onFiles t).2 := by
  rw [onFiles_create]
  simp only [TmpfsCall.onSlots, TmpfsSlots.tmpfsCreate, tmpfsFindFile_shows h, findFree_shows h]
  by_cases hname : cString name = [] ∨ (tmpfsFindFile t (cString name)).isSome = true
  · simp only [if_pos hname]
    exact ⟨rfl, h⟩
  simp only [if_neg hname]
  cases hfree : t.files.toList.findIdx? Option.isNone with
  | none => exact ⟨rfl, h⟩
  | some index =>
    have hcopy := tmpfsCopyName_spec (cString name) [] (List.replicate tmpfsMaxName 0) (by simp) (by decide)
    simp only [List.nil_append, List.length_nil, Nat.zero_add] at hcopy
    by_cases hlong : tmpfsMaxName ≤ (cString name).length
    · -- the slot has got a part of the name, and stays free
      simp only [if_pos hlong, TmpfsSlots.tmpfsClearFile, hcopy.2 hlong]
      refine ⟨rfl, ?_⟩
      have hfile : t.putFile index none = t := by
        obtain ⟨hlt, hnone, -⟩ := List.findIdx?_eq_some_iff_getElem.mp hfree
        have hi : index < tmpfsMaxFiles := by simpa using hlt
        simp only [Vector.getElem_toList, Option.isNone_iff_eq_none] at hnone
        unfold Tmpfs.putFile
        have hset : t.files.setIfInBounds index none = t.files := by
          refine Vector.ext fun j hj => ?_
          rw [Vector.getElem_setIfInBounds]
          split
          · rename_i heq
            subst heq
            exact hnone.symm
          · rfl
        rw [hset]
      rw [← hfile]
      exact h.put rfl
    · obtain ⟨tail, htail⟩ := hcopy.1 (not_le.mp hlong)
      simp only [if_neg hlong, TmpfsSlots.tmpfsClearFile, htail]
      refine ⟨rfl, h.put ⟨rfl, ?_, rfl, rfl⟩⟩
      exact cString_append_zero (zero_notMem_cString name)

/-- Every call does with the slots what it does with the files. -/
theorem tmpfsCall_shows (h : SlotsShow slots t) (c : TmpfsCall) :
    (c.onSlots slots).1 = (c.onFiles t).1 ∧ SlotsShow (c.onSlots slots).2 (c.onFiles t).2 := by
  by_cases hc : ∃ name, c = .create name
  · obtain ⟨name, rfl⟩ := hc
    exact tmpfsCreate_shows h name
  rcases h.found c.name with ⟨hslot, hfile⟩ | ⟨index, file, hslot, hat, hshows⟩
  · rw [onFiles_none hfile fun name heq => hc ⟨name, heq⟩]
    cases c with
    | create name => exact absurd ⟨name, rfl⟩ hc
    | delete name =>
      simp only [TmpfsCall.onSlots, TmpfsSlots.tmpfsDelete, show TmpfsSlots.tmpfsFindFile name slots = _ from hslot]
      exact ⟨rfl, h⟩
    | write name offset buffer =>
      simp only [TmpfsCall.onSlots, TmpfsSlots.tmpfsWrite, show TmpfsSlots.tmpfsFindFile name slots = _ from hslot]
      exact ⟨rfl, h⟩
    | read name offset capacity =>
      simp only [TmpfsCall.onSlots, TmpfsSlots.tmpfsRead, show TmpfsSlots.tmpfsFindFile name slots = _ from hslot]
      exact ⟨rfl, h⟩
    | stat name =>
      simp only [TmpfsCall.onSlots, TmpfsSlots.tmpfsStat, show TmpfsSlots.tmpfsFindFile name slots = _ from hslot]
      exact ⟨rfl, h⟩
  obtain ⟨hused, hname, hdata, hsize⟩ := hshows
  cases c with
  | create name => exact absurd ⟨name, rfl⟩ hc
  | delete name =>
    simp only [TmpfsCall.name] at hslot hat
    rw [onFiles_delete_some hat]
    simp only [TmpfsCall.onSlots, TmpfsSlots.tmpfsDelete, hslot]
    exact ⟨rfl, h.put rfl⟩
  | write name offset buffer =>
    simp only [TmpfsCall.name] at hslot hat
    simp only [TmpfsCall.onSlots, TmpfsSlots.tmpfsWrite, hslot]
    by_cases hoff : tmpfsMaxFileSize < offset
    · rw [onFiles_write_far hat hoff, if_pos hoff]
      exact ⟨rfl, h⟩
    · rw [onFiles_write_some hat hoff, if_neg hoff]
      have hcount : (if tmpfsMaxFileSize - offset < buffer.length then tmpfsMaxFileSize - offset else buffer.length) =
          min buffer.length (tmpfsMaxFileSize - offset) := by
        split <;> omega
      have htake : buffer.take (min buffer.length (tmpfsMaxFileSize - offset)) =
          buffer.take (tmpfsMaxFileSize - offset) := by
        rw [Nat.min_comm, List.take_eq_take_iff]
        omega
      rw [hcount, htake]
      refine ⟨rfl, h.put ⟨hused, hname, ?_, ?_⟩⟩
      · simp only [TmpfsFile.store, hdata]
      · simp only [TmpfsFile.store, hsize, List.length_take, Nat.min_comm]
  | read name offset capacity =>
    simp only [TmpfsCall.name] at hslot hat
    rw [onFiles_read_some hat]
    simp only [TmpfsCall.onSlots, TmpfsSlots.tmpfsRead, hslot, hdata, hsize]
    refine ⟨?_, h⟩
    have hcount : (if file.size - offset < capacity then file.size - offset else capacity) =
        min capacity (file.size - offset) := by
      split <;> omega
    rw [hcount]
    split <;> rfl
  | stat name =>
    simp only [TmpfsCall.name] at hslot hat
    rw [onFiles_stat_some hat]
    simp only [TmpfsCall.onSlots, TmpfsSlots.tmpfsStat, hslot, Option.map_some,
      Option.getD_some, hsize]
    exact ⟨trivial, h⟩

end Shows

end Armonios
