import Armonios.Dtb.Passed

/-!
# Tokens inside the blob

`fdt_view_init` bounds the blocks and not what the tokens say. `TokensInside` says of the tokens, from a cursor on, that
everything a reader follows is inside the blob: words, names up to their NUL, compared names up to the first
difference, values. A reader ends and stays inside the blob if and only if that is so.
-/

namespace Armonios

open Reads

section Loop

variable {σ α : Type} {mem : Nat → UInt8} {P : UInt64 → Prop}

variable (mem P) in
/-- What a reader follows from the token at `cursor` on is in `P`, and there is an end. A property's `len` and name
offset are words in `P`, and the reader says what of its name and its value is. -/
inductive TokensInside (reader : FdtReader) (strings structEnd : UInt64) :
    (passed : List FdtPassed) → (cursor : UInt64) → Prop where
  | blockEnd {passed cursor} (hcursor : structEnd ≤ cursor) : TokensInside reader strings structEnd passed cursor
  | beginNode {passed cursor n} (hcursor : cursor < structEnd) (hword : WordInside P cursor)
      (htoken : wordAt mem cursor = fdtBeginNode) (hname : NameInside mem P (cursor + 4) n)
      (hrest : TokensInside reader strings structEnd (.beginNode (cursor + 4) :: passed)
        (fdtAlign4 (cursor + 4 + UInt64.ofNat n + 1))) :
      TokensInside reader strings structEnd passed cursor
  | endNode {passed cursor} (hcursor : cursor < structEnd) (hword : WordInside P cursor)
      (htoken : wordAt mem cursor = fdtEndNode) (hgoes : ¬reader.EndsAtNode passed)
      (hrest : TokensInside reader strings structEnd (.endNode :: passed) (cursor + 4)) :
      TokensInside reader strings structEnd passed cursor
  | endNodeLast {passed cursor} (hcursor : cursor < structEnd) (hword : WordInside P cursor)
      (htoken : wordAt mem cursor = fdtEndNode) (hends : reader.EndsAtNode passed) :
      TokensInside reader strings structEnd passed cursor
  | prop {passed cursor} (hcursor : cursor < structEnd) (hword : WordInside P cursor)
      (htoken : wordAt mem cursor = fdtProp) (hlen : WordInside P (cursor + 4)) (hname : WordInside P (cursor + 4 + 4))
      (hprop : reader.PropInside (wordAt mem (cursor + 4)) (strings + (wordAt mem (cursor + 4 + 4)).toUInt64)
        (cursor + 4 + 8) passed)
      (hgoes : ¬reader.EndsAtProp (wordAt mem (cursor + 4)) (strings + (wordAt mem (cursor + 4 + 4)).toUInt64)
        (cursor + 4 + 8) passed)
      (hrest : TokensInside reader strings structEnd
        (.prop (wordAt mem (cursor + 4)) (strings + (wordAt mem (cursor + 4 + 4)).toUInt64) (cursor + 4 + 8) :: passed)
        (fdtAlign4 (cursor + 4 + 8 + (wordAt mem (cursor + 4)).toUInt64))) :
      TokensInside reader strings structEnd passed cursor
  | propLast {passed cursor} (hcursor : cursor < structEnd) (hword : WordInside P cursor)
      (htoken : wordAt mem cursor = fdtProp) (hlen : WordInside P (cursor + 4)) (hname : WordInside P (cursor + 4 + 4))
      (hprop : reader.PropInside (wordAt mem (cursor + 4)) (strings + (wordAt mem (cursor + 4 + 4)).toUInt64)
        (cursor + 4 + 8) passed)
      (hends : reader.EndsAtProp (wordAt mem (cursor + 4)) (strings + (wordAt mem (cursor + 4 + 4)).toUInt64)
        (cursor + 4 + 8) passed) :
      TokensInside reader strings structEnd passed cursor
  | nop {passed cursor} (hcursor : cursor < structEnd) (hword : WordInside P cursor)
      (htoken : wordAt mem cursor = fdtNop) (hrest : TokensInside reader strings structEnd passed (cursor + 4)) :
      TokensInside reader strings structEnd passed cursor
  | other {passed cursor} (hcursor : cursor < structEnd) (hword : WordInside P cursor)
      (htoken : wordAt mem cursor ∉ [fdtBeginNode, fdtEndNode, fdtProp, fdtNop]) :
      TokensInside reader strings structEnd passed cursor

variable {parser : FdtParser σ α} {reader : FdtReader} {After : List FdtPassed → σ → Prop} {strings structEnd : UInt64}
  {passed : List FdtPassed} {cursor : UInt64} {s : σ}

theorem tokensInside_of_fdtLoop (hfollows : Follows mem P parser reader After) {fuel : Nat} {r : α}
    (hs : After passed s) (hrun : run mem (fdtLoop parser strings structEnd fuel cursor s) = some r)
    (hin : Inside mem P (fdtLoop parser strings structEnd fuel cursor s)) :
    TokensInside mem P reader strings structEnd passed cursor := by
  induction fuel generalizing passed cursor s with
  | zero => simp [fdtLoop] at hrun
  | succ fuel ih =>
    unfold fdtLoop at hrun hin
    by_cases hcursor : structEnd ≤ cursor
    · exact .blockEnd hcursor
    rw [if_neg hcursor, run_bind, run_fdtBe32] at hrun
    rw [if_neg hcursor, inside_bind, inside_fdtBe32, run_fdtBe32] at hin
    obtain ⟨hword, hin⟩ := hin
    have hlt : cursor < structEnd := UInt64.not_le.mp hcursor
    by_cases hbegin : wordAt mem cursor = fdtBeginNode
    · rw [if_pos hbegin, run_bind, run_bind] at hrun
      rw [if_pos hbegin, inside_bind, inside_bind] at hin
      obtain ⟨-, hskip, hin⟩ := hin
      cases hstop : run mem (fdtSkipName fuel (cursor + 4)) with
      | none => simp [hstop] at hrun
      | some stop =>
        obtain ⟨n, hname, rfl⟩ := nameInside_of_fdtSkipName hstop hskip
        rw [hstop] at hrun hin
        exact .beginNode hlt hword hbegin hname (ih (hfollows.beginNode _ hs) hrun hin)
    rw [if_neg hbegin] at hrun hin
    by_cases hend : wordAt mem cursor = fdtEndNode
    · have hhandles := hfollows.endNode hs
      rw [if_pos hend] at hrun hin
      cases hnode : parser.endNode s with
      | error a =>
        rw [hnode] at hhandles
        exact .endNodeLast hlt hword hend hhandles
      | ok s' =>
        rw [hnode] at hrun hin hhandles
        obtain ⟨hgoes, hs'⟩ := hhandles
        exact .endNode hlt hword hend hgoes (ih hs' hrun hin)
    rw [if_neg hend] at hrun hin
    by_cases htoken : wordAt mem cursor = fdtProp
    · have hhandles := hfollows.prop (wordAt mem (cursor + 4)) (strings + (wordAt mem (cursor + 4 + 4)).toUInt64)
        (cursor + 4 + 8) hs
      rw [if_pos htoken, run_bind, run_bind, run_bind, run_fdtBe32, run_fdtBe32] at hrun
      rw [if_pos htoken, inside_bind, inside_bind, inside_bind, inside_fdtBe32, inside_fdtBe32, run_fdtBe32,
        run_fdtBe32] at hin
      obtain ⟨hlen, hname, hvalue, hin⟩ := hin
      rw [hfollows.propInside _ _ _ hs] at hvalue
      cases hnext : run mem (parser.prop (wordAt mem (cursor + 4))
          (strings + (wordAt mem (cursor + 4 + 4)).toUInt64) (cursor + 4 + 8) s) with
      | error a =>
        rw [hnext] at hhandles
        exact .propLast hlt hword htoken hlen hname hvalue hhandles
      | ok s' =>
        rw [hnext] at hrun hin hhandles
        obtain ⟨hgoes, hs'⟩ := hhandles
        exact .prop hlt hword htoken hlen hname hvalue hgoes (ih hs' hrun hin)
    rw [if_neg htoken] at hrun hin
    by_cases hnop : wordAt mem cursor = fdtNop
    · rw [if_pos hnop] at hrun hin
      exact .nop hlt hword hnop (ih hs hrun hin)
    · exact .other hlt hword (by simp [hbegin, hend, htoken, hnop])

theorem endsInside_succ {f : Nat → Reads (Option α)} (n : Nat) (r : α)
    (h : ∀ fuel ≥ n, run mem (f (fuel + 1)) = some r ∧ Inside mem P (f (fuel + 1))) : EndsInside mem P f := by
  refine ⟨n + 1, r, fun fuel hfuel => ?_⟩
  obtain ⟨fuel, rfl⟩ := Nat.exists_eq_add_one.mpr (show 0 < fuel by omega)
  exact h fuel (by omega)

theorem Handles.error_of_ends {Ends : Prop} {Goes : σ → Prop} {r : Except α σ} (h : Handles Ends Goes r)
    (hends : Ends) : ∃ a, r = .error a := by
  cases r with
  | error a => exact ⟨a, rfl⟩
  | ok s => exact absurd hends h.1

theorem Handles.ok_of_goes {Ends : Prop} {Goes : σ → Prop} {r : Except α σ} (h : Handles Ends Goes r)
    (hgoes : ¬Ends) : ∃ s, r = .ok s ∧ Goes s := by
  cases r with
  | error a => exact absurd h hgoes
  | ok s => exact ⟨s, rfl, h.2⟩

theorem fdtLoop_of_tokensInside (hfollows : Follows mem P parser reader After)
    (h : TokensInside mem P reader strings structEnd passed cursor) (hs : After passed s) :
    EndsInside mem P fun fuel => fdtLoop parser strings structEnd fuel cursor s := by
  induction h generalizing s with
  | blockEnd hcursor =>
    refine endsInside_succ 0 (parser.finish s) fun fuel _ => ?_
    simp [fdtLoop, hcursor]
  | @beginNode _ cursor n hcursor hword htoken hname hrest ih =>
    obtain ⟨m, r, hr⟩ := ih (hfollows.beginNode _ hs)
    refine endsInside_succ (max m (n + 1)) r fun fuel hfuel => ?_
    obtain ⟨hrun, hin⟩ := hr fuel (by omega)
    obtain ⟨hskip, hskipIn⟩ := fdtSkipName_of_nameInside hname (show n < fuel by omega)
    have hbegin := hfollows.nameInside hname s
    simp [fdtLoop, UInt64.not_le.mpr hcursor, htoken, hword, hbegin, hskip, hskipIn, hrun, hin]
  | endNode hcursor hword htoken hgoes hrest ih =>
    obtain ⟨s', hend, hs'⟩ := (hfollows.endNode hs).ok_of_goes hgoes
    obtain ⟨m, r, hr⟩ := ih hs'
    refine endsInside_succ m r fun fuel hfuel => ?_
    obtain ⟨hrun, hin⟩ := hr fuel hfuel
    simp [fdtLoop, UInt64.not_le.mpr hcursor, htoken, fdtTokens_ne, hword, hend, hrun, hin]
  | endNodeLast hcursor hword htoken hends =>
    obtain ⟨a, hend⟩ := (hfollows.endNode hs).error_of_ends hends
    refine endsInside_succ 0 a fun fuel _ => ?_
    simp [fdtLoop, UInt64.not_le.mpr hcursor, htoken, fdtTokens_ne, hword, hend]
  | prop hcursor hword htoken hlen hname hvalue hgoes hrest ih =>
    obtain ⟨s', hnext, hs'⟩ := (hfollows.prop _ _ _ hs).ok_of_goes hgoes
    obtain ⟨m, r, hr⟩ := ih hs'
    have hprop := (hfollows.propInside _ _ _ hs).mpr hvalue
    refine endsInside_succ m r fun fuel hfuel => ?_
    obtain ⟨hrun, hin⟩ := hr fuel hfuel
    simp [fdtLoop, UInt64.not_le.mpr hcursor, htoken, fdtTokens_ne, hword, hlen, hname, hprop, hnext, hrun, hin]
  | propLast hcursor hword htoken hlen hname hvalue hends =>
    obtain ⟨a, hnext⟩ := (hfollows.prop _ _ _ hs).error_of_ends hends
    have hprop := (hfollows.propInside _ _ _ hs).mpr hvalue
    refine endsInside_succ 0 a fun fuel _ => ?_
    simp [fdtLoop, UInt64.not_le.mpr hcursor, htoken, fdtTokens_ne, hword, hlen, hname, hprop, hnext]
  | nop hcursor hword htoken hrest ih =>
    obtain ⟨m, r, hr⟩ := ih hs
    refine endsInside_succ m r fun fuel hfuel => ?_
    obtain ⟨hrun, hin⟩ := hr fuel hfuel
    simp [fdtLoop, UInt64.not_le.mpr hcursor, htoken, fdtTokens_ne, hword, hrun, hin]
  | other hcursor hword htoken =>
    refine endsInside_succ 0 (parser.finish s) fun fuel _ => ?_
    simp only [List.mem_cons, List.not_mem_nil, or_false, not_or] at htoken
    simp [fdtLoop, UInt64.not_le.mpr hcursor, htoken, hword]

theorem fdtLoop_endsInside_iff (hfollows : Follows mem P parser reader After) (cursor : UInt64)
    (hs : After passed s) :
    EndsInside mem P (fun fuel => fdtLoop parser strings structEnd fuel cursor s) ↔
      TokensInside mem P reader strings structEnd passed cursor := by
  constructor
  · rintro ⟨n, r, h⟩
    obtain ⟨hrun, hin⟩ := h n (Nat.le_refl n)
    exact tokensInside_of_fdtLoop hfollows hs hrun hin
  · intro h
    exact fdtLoop_of_tokensInside hfollows h hs

end Loop

/-! ## The two readers -/

section Readers

variable {mem : Nat → UInt8} {dtbAddr : UInt64} {view : FdtView}

variable (mem) in
/-- The tokens as `dtb_get_memory` follows them. -/
def MemoryTokensInside (dtbAddr : UInt64) (view : FdtView) : Prop :=
  TokensInside mem (InBlob dtbAddr view.totalSize) (memoryReader mem (InBlob dtbAddr view.totalSize)) view.strings
    view.structEnd [] view.cursor

variable (mem) in
/-- The tokens as `dtb_get_framebuffer` follows them. -/
def FramebufferTokensInside (dtbAddr : UInt64) (view : FdtView) : Prop :=
  TokensInside mem (InBlob dtbAddr view.totalSize) (framebufferReader mem (InBlob dtbAddr view.totalSize)) view.strings
    view.structEnd [] view.cursor

theorem memoryScan_after_nil : MemoryScan.After mem [] ⟨-1, false, 2, 1⟩ :=
  ⟨rfl, by simp [InMemoryNode], rfl, rfl⟩

theorem framebufferScan_after_nil (framebuffer : DtbFramebuffer) :
    FramebufferScan.After mem [] ⟨-1, false, false, false, false, false, 2, 1, framebuffer⟩ := by
  constructor <;> simp [depthAfter, InFramebufferNode, HasField, addressCellsAfter, sizeCellsAfter, cellsAfter]

theorem dtbGetMemory_inside_iff (hview : run mem (fdtViewInit dtbAddr) = some view) :
    EndsInside mem (InBlob dtbAddr view.totalSize) (fun fuel => dtbGetMemory fuel dtbAddr) ↔
      MemoryTokensInside mem dtbAddr view :=
  (endsInside_after_view hview (inside_fdtViewInit hview)).trans
    (fdtLoop_endsInside_iff memory_follows _ memoryScan_after_nil)

theorem dtbGetFramebuffer_inside_iff (framebuffer : DtbFramebuffer)
    (hview : run mem (fdtViewInit dtbAddr) = some view) :
    EndsInside mem (InBlob dtbAddr view.totalSize) (fun fuel => dtbGetFramebuffer fuel dtbAddr framebuffer) ↔
      FramebufferTokensInside mem dtbAddr view :=
  (endsInside_after_view hview (inside_fdtViewInit hview)).trans
    (fdtLoop_endsInside_iff framebuffer_follows _ (framebufferScan_after_nil framebuffer))

/-- On a blob with an accepted header, each reader ends and reads inside the blob only, if and only if the tokens that
it follows are inside. -/
theorem dtb_readers_inside_iff (framebuffer : DtbFramebuffer) (hview : run mem (fdtViewInit dtbAddr) = some view) :
    (EndsInside mem (InBlob dtbAddr view.totalSize) (fun fuel => dtbGetMemory fuel dtbAddr) ↔
      MemoryTokensInside mem dtbAddr view) ∧
    (EndsInside mem (InBlob dtbAddr view.totalSize) (fun fuel => dtbGetFramebuffer fuel dtbAddr framebuffer) ↔
      FramebufferTokensInside mem dtbAddr view) :=
  ⟨dtbGetMemory_inside_iff hview, dtbGetFramebuffer_inside_iff framebuffer hview⟩

end Readers

/-- A blob of 44 bytes: the header, and a structure block that is one `FDT_BEGIN_NODE`. -/
def nodeAtEnd : List UInt8 :=
  [0xd0, 0x0d, 0xfe, 0xed, 0, 0, 0, 44, 0, 0, 0, 40, 0, 0, 0, 44, 0, 0, 0, 40, 0, 0, 0, 17, 0, 0, 0, 16, 0, 0, 0, 0,
    0, 0, 0, 0, 0, 0, 0, 4, 0, 0, 0, 1]

theorem fdtViewInit_nodeAtEnd :
    run (memoryWith nodeAtEnd) (fdtViewInit 4096) = some ⟨4140, 4136, 4140, 44⟩ := by decide

theorem dtb_readers_inside_nodeAtEnd :
    (EndsInside (memoryWith nodeAtEnd) (InBlob 4096 44) (fun fuel => dtbGetMemory fuel 4096) ↔
      MemoryTokensInside (memoryWith nodeAtEnd) 4096 ⟨4140, 4136, 4140, 44⟩) ∧
    (EndsInside (memoryWith nodeAtEnd) (InBlob 4096 44) (fun fuel => dtbGetFramebuffer fuel 4096 ⟨0, 0, 0, 0, 0⟩) ↔
      FramebufferTokensInside (memoryWith nodeAtEnd) 4096 ⟨4140, 4136, 4140, 44⟩) :=
  dtb_readers_inside_iff ⟨0, 0, 0, 0, 0⟩ fdtViewInit_nodeAtEnd

/-- The name of a node is read, so it is inside. -/
theorem TokensInside.name {mem : Nat → UInt8} {P : UInt64 → Prop} {reader : FdtReader}
    {strings structEnd cursor : UInt64} {passed : List FdtPassed}
    (h : TokensInside mem P reader strings structEnd passed cursor) (hcursor : cursor < structEnd)
    (htoken : wordAt mem cursor = fdtBeginNode) : P (cursor + 4) := by
  cases h with
  | blockEnd hend => exact absurd hcursor (UInt64.not_lt.mpr hend)
  | beginNode _ _ _ hname _ => simpa using hname.inside 0 (Nat.zero_le _)
  | endNode _ _ hother => exact absurd (hother.symm.trans htoken) (by decide)
  | endNodeLast _ _ hother => exact absurd (hother.symm.trans htoken) (by decide)
  | prop _ _ hother => exact absurd (hother.symm.trans htoken) (by decide)
  | propLast _ _ hother => exact absurd (hother.symm.trans htoken) (by decide)
  | nop _ _ hother => exact absurd (hother.symm.trans htoken) (by decide)
  | other _ _ hother => exact absurd (by simp [htoken]) hother

/-- Both readers look for the name after the blob. -/
theorem nodeAtEnd_outside :
    run (memoryWith nodeAtEnd) (fdtViewInit 4096) = some ⟨4140, 4136, 4140, 44⟩ ∧
    ¬EndsInside (memoryWith nodeAtEnd) (InBlob 4096 44) (fun fuel => dtbGetMemory fuel 4096) ∧
    ∀ framebuffer, ¬EndsInside (memoryWith nodeAtEnd) (InBlob 4096 44)
      (fun fuel => dtbGetFramebuffer fuel 4096 framebuffer) := by
  refine ⟨fdtViewInit_nodeAtEnd, fun h => ?_, fun framebuffer h => ?_⟩
  · have hname := ((dtbGetMemory_inside_iff fdtViewInit_nodeAtEnd).mp h).name (by decide) (by decide)
    exact absurd hname (by decide)
  · have hname := ((dtbGetFramebuffer_inside_iff framebuffer fdtViewInit_nodeAtEnd).mp h).name (by decide) (by decide)
    exact absurd hname (by decide)

end Armonios
