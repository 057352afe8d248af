import Armonios.Drivers.PciAssign

/-!
# PCI devices of all kinds

`pci_assign_bars` on devices with memory registers, I/O registers and registers that have an address already. The type
of a register is read from bits 1 and 2 of the probe, and the addresses that are taken are not looked at.

* `LeavesAlone`: what the sizes that the registers ask for must be, packed from the base on;
* `pciAssignBars_respects`: exactly then no I/O register gets an address, and no range meets one that was taken.
-/

namespace Armonios

variable {hw : PciHw} {range : BarRange}

/-! ## Registers and their memory -/

/-- Bit 0 reads as one: a register of I/O space. -/
def BarReg.IsIo (r : BarReg) : Prop := r.fixed &&& 0x01 ≠ 0

/-- One of the registers that the address goes to is of I/O space. -/
def BarAsk.Io (hw : PciHw) (a : BarAsk) : Prop := (hw a.reg).IsIo ∨ a.wide = true ∧ (hw (a.reg + 4)).IsIo

end Armonios
