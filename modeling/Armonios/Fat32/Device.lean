import Armonios.Lib.Wp
import Mathlib.Data.Set.Insert

/-!
# The sector device under the FAT32 driver

`kernel/fat32.c` reaches the disk only through the two callbacks of `fat32_fs_t`, one sector at a
time. `Dev` is what stands behind them: the sectors and at most one planned fault. `Site` names the
places of the driver that call back, so a plan `(site, n)` is the `n`-th call from that place: it
leaves the disk as it is and returns non-zero. A device without a plan is a reliable disk.

A function of the driver that returns -1 throws `Err.fail`; a loop that does not end is `Err.hang`.

* `ReadsTo m S F d P`: what a function that does not write does on the device `d`. It returns a
  value with `P`, or a callback from a site in `S` fails, or it refuses under the condition `F`.
-/

namespace Armonios

/-- The contents of one sector (`FAT32_SECTOR_SIZE` bytes). -/
@[ext] structure Sector where
  get : Fin 512 → UInt8

namespace Sector

/-- The byte at `i`; the driver never indexes past the sector. -/
def byte (s : Sector) (i : Nat) : UInt8 := if h : i < 512 then s.get ⟨i, h⟩ else 0

/-- The bytes `bs` stored from `off` on. -/
def patch (s : Sector) (off : Nat) (bs : List UInt8) : Sector where
  get i := if off ≤ i.val ∧ i.val < off + bs.length then bs.getD (i.val - off) 0 else s.get i

/-- A sector of zeros. -/
def zero : Sector where
  get _ := 0

/-- All bytes of the sector in order. -/
def bytes (s : Sector) : List UInt8 := List.ofFn s.get

end Sector

/-- `le16` of the driver, at the byte `off` of a sector. -/
def le16 (s : Sector) (off : Nat) : Nat := (s.byte off).toNat + 2 ^ 8 * (s.byte (off + 1)).toNat

/-- `le32` of the driver. -/
def le32 (s : Sector) (off : Nat) : Nat :=
  (s.byte off).toNat + 2 ^ 8 * (s.byte (off + 1)).toNat + 2 ^ 16 * (s.byte (off + 2)).toNat +
    2 ^ 24 * (s.byte (off + 3)).toNat

/-- The bytes that `put_le16` stores. -/
def putLe16 (value : Nat) : List UInt8 := [UInt8.ofNat value, UInt8.ofNat (value / 2 ^ 8)]

/-- The bytes that `put_le32` stores. -/
def putLe32 (value : Nat) : List UInt8 :=
  [UInt8.ofNat value, UInt8.ofNat (value / 2 ^ 8), UInt8.ofNat (value / 2 ^ 16),
    UInt8.ofNat (value / 2 ^ 24)]

/-! ## Reading a patched sector -/

theorem Sector.byte_patch (s : Sector) (off : Nat) (bs : List UInt8) (i : Nat) :
    (s.patch off bs).byte i =
      if i < 512 ∧ off ≤ i ∧ i < off + bs.length then bs.getD (i - off) 0 else s.byte i := by
  unfold byte patch
  by_cases hi : i < 512 <;> simp [hi]

theorem Sector.byte_patch_out (s : Sector) {off i : Nat} {bs : List UInt8}
    (h : i < off ∨ off + bs.length ≤ i) : (s.patch off bs).byte i = s.byte i := by
  rw [byte_patch, if_neg (by omega)]

theorem Sector.byte_patch_in (s : Sector) {off i : Nat} {bs : List UInt8} (h512 : i < 512)
    (h : off ≤ i) (h' : i < off + bs.length) : (s.patch off bs).byte i = bs.getD (i - off) 0 := by
  rw [byte_patch, if_pos ⟨h512, h, h'⟩]

theorem le16_patch_out (s : Sector) {off i : Nat} {bs : List UInt8}
    (h : i + 2 ≤ off ∨ off + bs.length ≤ i) : le16 (s.patch off bs) i = le16 s i := by
  unfold le16
  rw [s.byte_patch_out (by omega), s.byte_patch_out (by omega)]

theorem le32_patch_out (s : Sector) {off i : Nat} {bs : List UInt8}
    (h : i + 4 ≤ off ∨ off + bs.length ≤ i) : le32 (s.patch off bs) i = le32 s i := by
  unfold le32
  rw [s.byte_patch_out (by omega), s.byte_patch_out (by omega), s.byte_patch_out (by omega),
    s.byte_patch_out (by omega)]

@[simp] theorem length_putLe16 (v : Nat) : (putLe16 v).length = 2 := rfl

@[simp] theorem length_putLe32 (v : Nat) : (putLe32 v).length = 4 := rfl

theorem le16_lt (s : Sector) (off : Nat) : le16 s off < 2 ^ 16 := by
  have h0 := (s.byte off).toNat_lt
  have h1 := (s.byte (off + 1)).toNat_lt
  unfold le16
  omega

theorem le32_lt (s : Sector) (off : Nat) : le32 s off < 2 ^ 32 := by
  have h0 := (s.byte off).toNat_lt
  have h1 := (s.byte (off + 1)).toNat_lt
  have h2 := (s.byte (off + 2)).toNat_lt
  have h3 := (s.byte (off + 3)).toNat_lt
  unfold le32
  omega

/-- Four bytes of a patch, read back. -/
theorem byte_patch_at (s : Sector) (off : Nat) (bs : List UInt8) (k : Nat) (hk : k < bs.length)
    (h : off + bs.length ≤ 512) : (s.patch off bs).byte (off + k) = bs.getD k 0 := by
  rw [s.byte_patch_in (by omega) (by omega) (by omega), Nat.add_sub_cancel_left]

theorem le32_patch_putLe32 (s : Sector) {off v : Nat} (h : off + 4 ≤ 512) :
    le32 (s.patch off (putLe32 v)) off = v % 2 ^ 32 := by
  have e := fun k hk => byte_patch_at s off (putLe32 v) k hk h
  have e0 := e 0 (by simp)
  rw [Nat.add_zero] at e0
  unfold le32
  rw [e0, e 1 (by simp), e 2 (by simp), e 3 (by simp)]
  simp only [putLe32, List.getD_cons_zero, List.getD_cons_succ, UInt8.toNat_ofNat']
  omega

theorem le16_patch_putLe16 (s : Sector) {off v : Nat} (h : off + 2 ≤ 512) :
    le16 (s.patch off (putLe16 v)) off = v % 2 ^ 16 := by
  have e := fun k hk => byte_patch_at s off (putLe16 v) k hk h
  have e0 := e 0 (by simp)
  rw [Nat.add_zero] at e0
  unfold le16
  rw [e0, e 1 (by simp)]
  simp only [putLe16, List.getD_cons_zero, List.getD_cons_succ, UInt8.toNat_ofNat']
  omega

theorem Sector.length_bytes (s : Sector) : s.bytes.length = 512 := List.length_ofFn

theorem Sector.getElem_bytes (s : Sector) {i : Nat} (h : i < s.bytes.length) :
    s.bytes[i] = s.byte i := by
  have hi : i < 512 := by rw [← s.length_bytes]; exact h
  rw [byte, dif_pos hi]
  exact List.getElem_ofFn h

/-! ## The device -/

/-- What a FAT entry is written for: a chain head, the link from the old last cluster, the mark on
the new last cluster, or a free; `free first` says whether it is the first cluster of its chain. -/
inductive FatUse
  | head
  | link
  | tail
  | free (first : Bool)
  deriving DecidableEq, Repr

/-- What a directory sector is patched for. -/
inductive SlotUse
  | truncate
  | head
  | size
  | create
  | unlink
  | rename
  deriving DecidableEq, Repr

/-- The places of the driver that call a sector callback. `copy` is the FAT copy. -/
inductive Site
  /-- `read_fat_entry` on a walk or in the search for a free cluster -/
  | lookup
  /-- `read_fat_entry` in `free_cluster_chain` -/
  | freeNext (first : Bool)
  | fatRead (use : FatUse) (copy : Nat)
  | fatWrite (use : FatUse) (copy : Nat)
  /-- a sector of the root directory in a search -/
  | dirScan
  | slotRead (use : SlotUse)
  | slotWrite (use : SlotUse)
  | dataRead
  | dataWrite
  /-- the zeroing of a new file's cluster -/
  | zeroWrite
  | boot
  deriving DecidableEq, Repr

/-- The disk behind the callbacks and the planned fault: `fault = some (site, sector, n)` makes the `n`-th
call from `site` fail, once; only the calls for `sector` count, if there is one. -/
structure Dev where
  disk : Nat → Sector
  fault : Option (Site × Option Nat × Nat)

/-- The site whose fault is still to come. -/
def Dev.armed (d : Dev) : Option Site := d.fault.map Prod.fst

/-- `fail` is the driver's -1 (or its cluster number 0); `hang` is a loop without end. -/
inductive Err
  | fail
  | hang
  deriving DecidableEq, Repr

abbrev Io := EStateM Err Dev

/-- The geometry that `fat32_mount` stores, and which callbacks are set. -/
structure Fat32Fs where
  bytesPerSector : Nat
  sectorsPerCluster : Nat
  reservedSectors : Nat
  fatCount : Nat
  sectorsPerFat : Nat
  totalSectors : Nat
  fatStartLba : Nat
  dataStartLba : Nat
  rootCluster : Nat
  mounted : Bool
  /-- `write_sector != 0` -/
  writable : Bool
  deriving DecidableEq, Repr

/-- `fat32_file_t`. -/
structure Fat32File where
  firstCluster : Nat
  dirLba : Nat
  dirOffset : Nat
  capacity : Nat
  size : Nat
  deriving DecidableEq, Repr

/-- One call of a sector callback from `site`, for the sector `lba`. -/
def callback (site : Site) (lba : Nat) : Io Unit := fun d =>
  match d.fault with
  | none => .ok () d
  | some (s, sector, n) =>
    if s = site ∧ sector.all (· = lba) = true then
      match n with
      | 0 => .error .fail { d with fault := none }
      | n + 1 => .ok () { d with fault := some (s, sector, n) }
    else .ok () d

def readSector (fs : Fat32Fs) (site : Site) (lba : Nat) : Io Sector := do
  if fs.mounted ∧ fs.totalSectors ≤ lba then throw .fail
  callback site lba
  return (← get).disk lba

def writeSector (fs : Fat32Fs) (site : Site) (lba : Nat) (buffer : Sector) : Io Unit := do
  if fs.writable = false ∨ fs.mounted = false ∨ fs.totalSectors ≤ lba then throw .fail
  callback site lba
  modify fun d => { d with disk := fun l => if l = lba then buffer else d.disk l }

/-! ## What the device does -/

/-- The device stopped a run that had the fault `a` ahead of it: the fault came, from a site in
`S`, or the driver refused because of `F`. -/
def Stopped (S : Set Site) (F : Prop) (a : Option Site) (d : Dev) : Prop :=
  (F ∧ d.armed = a) ∨ (d.fault = none ∧ ∃ s ∈ S, a = some s)

theorem Stopped.mono {S S' : Set Site} {F F' : Prop} {a : Option Site} {d : Dev}
    (h : Stopped S F a d) (hs : S ⊆ S') (hf : F → F') : Stopped S' F' a d := by
  rcases h with ⟨h, ha⟩ | ⟨hn, s, h, ha⟩
  · exact .inl ⟨hf h, ha⟩
  · exact .inr ⟨hn, s, hs h, ha⟩

theorem fault_none {d : Dev} : d.armed = none ↔ d.fault = none := by
  simp [Dev.armed]

/-- A reliable disk stops a run only where the driver refuses. -/
theorem Stopped.refused {S : Set Site} {F : Prop} {d : Dev} (h : Stopped S F none d) :
    F ∧ d.armed = none := by
  rcases h with h | ⟨-, s, -, hs⟩
  · exact h
  · cases hs

/-- Where the planned fault was used up, its site is one of `S`. -/
theorem Stopped.site {S : Set Site} {F : Prop} {s : Site} {d : Dev} (h : Stopped S F (some s) d)
    (hn : d.fault = none) : s ∈ S := by
  rcases h with ⟨-, ha⟩ | ⟨-, s', hs', he⟩
  · rw [Dev.armed, hn] at ha; cases ha
  · cases he; exact hs'

theorem wp_callback {site : Site} {lba : Nat} {d : Dev} {Q : Unit → Dev → Prop} {E : Err → Dev → Prop}
    (hq : ∀ d', d'.disk = d.disk → d'.armed = d.armed → Q () d')
    (he : ∀ d', d'.disk = d.disk → Stopped {site} False d.armed d' → E .fail d') :
    Wp (callback site lba) d Q E := by
  unfold Wp callback
  rcases d with ⟨disk, _ | ⟨s, sector, n⟩⟩
  · exact hq _ rfl rfl
  · by_cases hs : s = site ∧ sector.all (· = lba) = true
    · cases n with
      | zero => simpa [hs] using he ⟨disk, none⟩ rfl (.inr ⟨rfl, site, rfl, by simp [Dev.armed, hs.1]⟩)
      | succ n => simpa [hs] using hq ⟨disk, some (site, sector, n)⟩ rfl (by simp [Dev.armed, hs.1])
    · dsimp only
      rw [if_neg hs]
      exact hq _ rfl rfl

/-- A function that leaves the disk as it is (module doc). -/
def ReadsTo {α : Type} (m : Io α) (S : Set Site) (F : Prop) (d : Dev) (P : α → Prop) : Prop :=
  Wp m d (fun a d' => d'.disk = d.disk ∧ d'.armed = d.armed ∧ P a)
    (fun e d' => e = .fail ∧ d'.disk = d.disk ∧ Stopped S F d.armed d')

section ReadsTo

variable {α β : Type} {m : Io α} {f : α → Io β} {S S' : Set Site} {F F' : Prop} {d : Dev}
  {P P' : α → Prop} {R : β → Prop}

theorem ReadsTo.pure {a : α} (h : P a) : ReadsTo (pure a) S F d P := ⟨rfl, rfl, h⟩

theorem ReadsTo.fail (h : F) : ReadsTo (throw .fail : Io α) S F d P := ⟨rfl, rfl, .inl ⟨h, rfl⟩⟩

theorem ReadsTo.mono (h : ReadsTo m S F d P) (hs : S ⊆ S') (hf : F → F') (hp : ∀ a, P a → P' a) :
    ReadsTo m S' F' d P' :=
  Wp.mono h (fun a _ ⟨h1, h2, h3⟩ => ⟨h1, h2, hp a h3⟩)
    fun _ _ ⟨h1, h2, h3⟩ => ⟨h1, h2, h3.mono hs hf⟩

theorem ReadsTo.bind (h : ReadsTo m S F d P)
    (hf : ∀ a d', d'.disk = d.disk → d'.armed = d.armed → P a → ReadsTo (f a) S F d' R) :
    ReadsTo (m >>= f) S F d R := by
  refine wp_bind.mpr (Wp.mono h (fun a d' ⟨h1, h2, h3⟩ => ?_) fun _ _ h => h)
  refine Wp.mono (hf a d' h1 h2 h3)
    (fun b d'' ⟨k1, k2, k3⟩ => ⟨by rw [k1, h1], by rw [k2, h2], k3⟩) ?_
  rintro e d'' ⟨k1, k2, k3⟩
  exact ⟨k1, by rw [k2, h1], by rw [← h2]; exact k3⟩

/-- An early exit before the rest of a read. -/
theorem ReadsTo.guard {c : Prop} [Decidable c] {k : Unit → Io α} (h₁ : c → F)
    (h₂ : ¬c → ReadsTo (k ()) S F d P) :
    ReadsTo (if c then throw .fail >>= k else k ()) S F d P :=
  wp_guard (fun h => ⟨rfl, rfl, .inl ⟨h₁ h, rfl⟩⟩) h₂

theorem ReadsTo.ite {c : Prop} [Decidable c] {m₁ m₂ : Io α} (h₁ : c → ReadsTo m₁ S F d P)
    (h₂ : ¬c → ReadsTo m₂ S F d P) : ReadsTo (if c then m₁ else m₂) S F d P := wp_ite h₁ h₂

/-- A read followed by a program with a specification of its own. -/
theorem ReadsTo.wp_bind {Q : β → Dev → Prop} {E : Err → Dev → Prop} (h : ReadsTo m S F d P)
    (hq : ∀ a d', d'.disk = d.disk → d'.armed = d.armed → P a → Wp (f a) d' Q E)
    (he : ∀ d', d'.disk = d.disk → Stopped S F d.armed d' → E .fail d') :
    Wp (m >>= f) d Q E := by
  refine Armonios.wp_bind.mpr (Wp.mono h (fun a d' ⟨h1, h2, h3⟩ => hq a d' h1 h2 h3) ?_)
  rintro e d' ⟨rfl, h2, h3⟩
  exact he d' h2 h3

theorem ReadsTo.not_refused (h : ReadsTo m S F d P) (hf : ¬F) : ReadsTo m S False d P :=
  h.mono (fun _ h => h) hf fun _ h => h

/-- On a reliable disk a read that cannot be refused returns, and the device is as it was. -/
theorem ReadsTo.returns (h : ReadsTo m S False d P) (hd : d.fault = none) :
    ∃ a, m d = .ok a d ∧ P a := by
  unfold ReadsTo Wp at h
  split at h
  · rename_i a d' hm
    obtain ⟨h1, h2, h3⟩ := h
    have : d' = d := by
      rcases d with ⟨disk, fault⟩
      rcases d' with ⟨disk', fault'⟩
      simp only [Dev.armed] at h1 h2 hd
      subst hd
      rw [Option.map_none, Option.map_eq_none_iff] at h2
      rw [h1, h2]
    rw [this] at hm
    exact ⟨a, hm, h3⟩
  · obtain ⟨-, -, h3⟩ := h
    rw [Dev.armed, hd] at h3
    exact h3.refused.1.elim

end ReadsTo

variable {fs : Fat32Fs} {site : Site} {lba : Nat} {d : Dev}

theorem readSector_spec (hl : fs.mounted → lba < fs.totalSectors) :
    ReadsTo (readSector fs site lba) {site} False d (fun s => s = d.disk lba) := by
  unfold readSector
  refine wp_guard (fun ⟨h, h'⟩ => absurd (hl h) (by omega)) fun _ => wp_bind.mpr ?_
  refine wp_callback (fun d' h1 h2 => ⟨h1, h2, ?_⟩) fun d' h1 h2 => ⟨rfl, h1, h2⟩
  rw [← h1]

/-- The disk after a sector write. -/
def putSector (disk : Nat → Sector) (lba : Nat) (s : Sector) : Nat → Sector :=
  fun l => if l = lba then s else disk l

@[simp] theorem putSector_same (disk : Nat → Sector) (lba : Nat) (s : Sector) :
    putSector disk lba s lba = s := if_pos rfl

theorem putSector_ne (disk : Nat → Sector) {lba l : Nat} (s : Sector) (h : l ≠ lba) :
    putSector disk lba s l = disk l := if_neg h

theorem wp_writeSector {s : Sector} {Q : Unit → Dev → Prop} {E : Err → Dev → Prop}
    (hw : fs.writable) (hm : fs.mounted) (hl : lba < fs.totalSectors)
    (hq : ∀ d', d'.disk = putSector d.disk lba s → d'.armed = d.armed → Q () d')
    (he : ∀ d', d'.disk = d.disk → Stopped {site} False d.armed d' → E .fail d') :
    Wp (writeSector fs site lba s) d Q E := by
  unfold writeSector
  refine wp_guard (fun h => ?_) fun _ => wp_bind.mpr ?_
  · rw [hw, hm] at h
    simp at h
    omega
  refine wp_callback (fun d' h1 h2 => ?_) fun d' h1 h2 => he d' h1 h2
  exact hq _ (by rw [← h1]; rfl) h2

end Armonios
