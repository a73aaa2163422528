import RustBL.Kernel.Tables.Gdt
import RustBL.Kernel.Interrupts.Pic
import RustBL.Library.Words

/-!
# The interrupt descriptor table

`idt::init` writes the gates of the handlers, first one for all vectors of the interrupt controllers
and then the others, and loads the table. `gateOf` is the table it comes to, and `init_installs`
says so of the memory (`Installed`), behind `gdt::init`.
-/

set_option autoImplicit false
set_option relaxedAutoImplicit false

namespace RustBL

namespace Idt

open Gdt Pic

/-! ### Gates -/

/-- The handlers. -/
inductive Handler
  | unhandledIrq
  | divideError
  | breakpoint
  | invalidOpcode
  | generalProtection
  | pageFault
  | doubleFault
  | timer
  | keyboard
  deriving DecidableEq, Repr

/-- The handler is declared with an error code. -/
def Handler.takesErrorCode : Handler → Bool
  | .generalProtection => true
  | .pageFault => true
  | .doubleFault => true
  | _ => false

/-- Present, ring 0, 64-bit interrupt gate. -/
def INTERRUPT_GATE : UInt8 := 0x8e

/-- `Entry`. -/
structure Entry where
  offsetLow : UInt16
  selector : UInt16
  ist : UInt8
  typeAttributes : UInt8
  offsetMiddle : UInt16
  offsetHigh : UInt32
  reserved : UInt32

namespace Entry

/-- `Entry::missing`. -/
def missing : Entry :=
  ⟨0, 0, 0, 0, 0, 0, 0⟩

/-- `Entry::set`, which assigns every field. -/
def set (handler : UInt64) (istIndex : Option UInt8) : Except String Entry := do
  let ist ← match istIndex with
    | some index =>
      if index < 7 then pure ((index + 1) &&& 0b111) else throw "IST index out of range"
    | none => pure 0
  return {
    offsetLow := handler.toUInt16
    offsetMiddle := (handler >>> 16).toUInt16
    offsetHigh := (handler >>> 32).toUInt32
    selector := UInt16.ofNat KERNEL_CODE_SELECTOR
    ist
    typeAttributes := INTERRUPT_GATE
    reserved := 0 }

/-- The entry in memory. -/
def write (entry : Entry) (m : Mem) (addr : ℕ) : Mem :=
  let m := m.store addr 2 entry.offsetLow.toNat
  let m := m.store (addr + 2) 2 entry.selector.toNat
  let m := m.store (addr + 4) 1 entry.ist.toNat
  let m := m.store (addr + 5) 1 entry.typeAttributes.toNat
  let m := m.store (addr + 6) 2 entry.offsetMiddle.toNat
  let m := m.store (addr + 8) 4 entry.offsetHigh.toNat
  m.store (addr + 12) 4 entry.reserved.toNat

/-- The entry as one word. -/
def word (entry : Entry) : ℕ :=
  entry.offsetLow.toNat + 2 ^ 16 * (entry.selector.toNat + 2 ^ 16 * (entry.ist.toNat +
    2 ^ 8 * (entry.typeAttributes.toNat + 2 ^ 8 * (entry.offsetMiddle.toNat +
      2 ^ 16 * (entry.offsetHigh.toNat + 2 ^ 32 * entry.reserved.toNat)))))

end Entry

/-! ### The initialisation -/

/-- `set_handler`. -/
def setHandler (statics : Statics) (m : Mem) (vector : UInt8) (handler : UInt64) :
    Except String Mem := do
  let entry ← Entry.set handler none
  return entry.write m (statics.idt + 16 * vector.toNat)

/-- `set_handler_with_ist`. -/
def setHandlerWithIst (statics : Statics) (m : Mem) (vector : UInt8) (handler : UInt64)
    (istIndex : UInt8) : Except String Mem := do
  let entry ← Entry.set handler (some istIndex)
  return entry.write m (statics.idt + 16 * vector.toNat)

/-- `load`. -/
def load (statics : Statics) (p : Processor) : Processor :=
  let p := { p with mem := writePointer p.mem statics.pointer (IDT_SIZE - 1) statics.idt }
  p.lidt statics.pointer

/-- `init`, with the addresses of the handlers. -/
def init (statics : Statics) (address : Handler → UInt64) (p : Processor) :
    Except String Processor := do
  let m ← (List.range' PIC1_OFFSET.toNat (PIC2_OFFSET.toNat + 7 + 1 - PIC1_OFFSET.toNat)).foldlM
    (fun m vector ↦ setHandler statics m (.ofNat vector) (address .unhandledIrq)) p.mem
  let m ← setHandler statics m 0 (address .divideError)
  let m ← setHandler statics m 3 (address .breakpoint)
  let m ← setHandler statics m 6 (address .invalidOpcode)
  let m ← setHandler statics m 13 (address .generalProtection)
  let m ← setHandler statics m 14 (address .pageFault)
  let m ← setHandlerWithIst statics m 8 (address .doubleFault) DOUBLE_FAULT_IST_INDEX
  let m ← setHandler statics m TIMER_VECTOR (address .timer)
  let m ← setHandler statics m KEYBOARD_VECTOR (address .keyboard)
  return load statics { p with mem := m }

/-! ### The table it comes to -/

/-- The handler of a vector, and the interrupt stack of its gate. -/
def gateOf (vector : ℕ) : Option (Handler × ℕ) :=
  match vector with
  | 0 => some (.divideError, 0)
  | 3 => some (.breakpoint, 0)
  | 6 => some (.invalidOpcode, 0)
  | 8 => some (.doubleFault, 1)
  | 13 => some (.generalProtection, 0)
  | 14 => some (.pageFault, 0)
  | 32 => some (.timer, 0)
  | 33 => some (.keyboard, 0)
  | vector => if 34 ≤ vector ∧ vector ≤ 47 then some (.unhandledIrq, 0) else none

/-- The word of a gate for a handler at this address. -/
def gateWord (handler : UInt64) (ist : ℕ) : ℕ :=
  handler.toNat % 2 ^ 16 + 2 ^ 16 * (8 + 2 ^ 16 * (ist + 2 ^ 8 * (0x8e + 2 ^ 8 *
    (handler.toNat / 2 ^ 16 % 2 ^ 16 + 2 ^ 16 * (handler.toNat / 2 ^ 32)))))

/-- The gates in the order in which they are written. -/
def writes : List (ℕ × (Handler × ℕ)) :=
  (List.range' 32 16).map (fun vector ↦ (vector, (.unhandledIrq, 0))) ++
    [(0, (.divideError, 0)), (3, (.breakpoint, 0)), (6, (.invalidOpcode, 0)),
      (13, (.generalProtection, 0)), (14, (.pageFault, 0)), (8, (.doubleFault, 1)),
      (32, (.timer, 0)), (33, (.keyboard, 0))]

/-- The last gate that is written for a vector is the one of the table. -/
theorem lookup_writes : ∀ vector < 256, writes.reverse.lookup vector = gateOf vector := by
  decide +kernel

section Entries

/-- The fields of an entry are one word. -/
theorem Entry.write_eq (entry : Entry) (m : Mem) (addr : ℕ) :
    entry.write m addr = m.store addr 16 entry.word := by
  have hlow := entry.offsetLow.toNat_lt
  have hselector := entry.selector.toNat_lt
  have hist := entry.ist.toNat_lt
  have htype := entry.typeAttributes.toNat_lt
  have hmiddle := entry.offsetMiddle.toNat_lt
  have hhigh := entry.offsetHigh.toNat_lt
  rw [Entry.write, Entry.word, Mem.store_store (by omega), Mem.store_store (by omega),
    Mem.store_store (by omega), Mem.store_store (by omega), Mem.store_store (by omega),
    Mem.store_store (by omega)]
  rfl

/-- The gate of a handler, as it is put together. -/
theorem Entry.set_word (handler : UInt64) (ist : UInt8) :
    (Entry.mk handler.toUInt16 (UInt16.ofNat KERNEL_CODE_SELECTOR) ist INTERRUPT_GATE
      (handler >>> 16).toUInt16 (handler >>> 32).toUInt32 0).word =
      gateWord handler ist.toNat := by
  have hlow : handler.toUInt16.toNat = handler.toNat % 2 ^ 16 := rfl
  have hmiddle : (handler >>> 16).toUInt16.toNat = handler.toNat / 2 ^ 16 % 2 ^ 16 := by
    rw [UInt64.toNat_toUInt16, UInt64.toNat_shiftRight, Nat.shiftRight_eq_div_pow]
    rfl
  have hhigh : (handler >>> 32).toUInt32.toNat = handler.toNat / 2 ^ 32 := by
    have hlt := handler.toNat_lt
    have hshift : (handler >>> 32).toNat = handler.toNat / 2 ^ 32 := by
      rw [UInt64.toNat_shiftRight, Nat.shiftRight_eq_div_pow]
      rfl
    rw [UInt64.toNat_toUInt32, hshift]
    exact Nat.mod_eq_of_lt (by omega)
  rw [Entry.word, hlow, hmiddle, hhigh]
  rfl

theorem gateWord_lt (handler : UInt64) {ist : ℕ} (hist : ist < 8) :
    gateWord handler ist < 256 ^ 16 := by
  have hlt := handler.toNat_lt
  rw [gateWord]
  omega

/-- `set_handler` writes a gate that stays on the interrupted stack. -/
theorem setHandler_eq (statics : Statics) (m : Mem) (vector : UInt8) (handler : UInt64) :
    setHandler statics m vector handler =
      .ok (m.store (statics.idt + 16 * vector.toNat) 16 (gateWord handler 0)) := by
  have hset : setHandler statics m vector handler = .ok ((Entry.mk handler.toUInt16
      (UInt16.ofNat KERNEL_CODE_SELECTOR) 0 INTERRUPT_GATE (handler >>> 16).toUInt16
      (handler >>> 32).toUInt32 0).write m (statics.idt + 16 * vector.toNat)) := rfl
  rw [hset, Entry.write_eq, Entry.set_word]
  rfl

/-- `set_handler_with_ist` writes a gate that switches to a stack of the table, when the table has
one with this index. -/
theorem setHandlerWithIst_eq (statics : Statics) (m : Mem) (vector : UInt8) (handler : UInt64)
    {istIndex : UInt8} (hindex : istIndex < 7) :
    setHandlerWithIst statics m vector handler istIndex =
      .ok (m.store (statics.idt + 16 * vector.toNat) 16
        (gateWord handler (istIndex.toNat + 1))) := by
  have hist : ∀ bits : BitVec 8, bits < 7 → ((bits + 1) &&& 0b111).toNat = bits.toNat + 1 := by
    decide
  rw [setHandlerWithIst, Entry.set]
  dsimp only
  rw [if_pos hindex, pure_eq_ok, ok_bind, pure_eq_ok, ok_bind, Entry.write_eq, Entry.set_word]
  exact congrArg (fun ist ↦ Except.ok (m.store _ 16 (gateWord handler ist)))
    (hist istIndex.toBitVec hindex)

end Entries

/-- The word of a vector in the table. -/
def tableWord (address : Handler → UInt64) (vector : ℕ) : ℕ :=
  match gateOf vector with
  | none => 0
  | some (handler, ist) => gateWord (address handler) ist

/-- What `gdt::init` and `idt::init` leave behind. -/
structure Installed (statics : Statics) (address : Handler → UInt64) (p : Processor) : Prop where
  gdtr_eq : p.gdtr = ⟨39, statics.gdt⟩
  idtr_eq : p.idtr = ⟨4095, statics.idt⟩
  tr_eq : p.tr = ⟨TSS_SELECTOR, TSS_SIZE - 1, statics.tss⟩
  cs_eq : p.cs = KERNEL_CODE_SELECTOR
  ss_eq : p.ss = KERNEL_DATA_SELECTOR
  code_eq : p.mem.load (statics.gdt + 8) 8 = codeDescriptor.word
  stack_eq : p.mem.load (statics.tss + 36) 8 = statics.stackTop
  gate_eq : ∀ vector < 256, p.mem.load (statics.idt + 16 * vector) 16 = tableWord address vector

section Init

variable (statics : Statics) (address : Handler → UInt64)

/-- Write one gate. -/
def writeGate (m : Mem) (write : ℕ × (Handler × ℕ)) : Mem :=
  m.store (statics.idt + 16 * write.1) 16 (gateWord (address write.2.1) write.2.2)

/-- The initialisation writes the gates and loads the table. -/
theorem init_eq (p : Processor) : init statics address p =
    .ok (load statics { p with mem := writes.foldl (writeGate statics address) p.mem }) := by
  have hrange : (List.range' PIC1_OFFSET.toNat
      (PIC2_OFFSET.toNat + 7 + 1 - PIC1_OFFSET.toNat)).foldlM (m := Except String)
        (fun m vector ↦ setHandler statics m (.ofNat vector) (address .unhandledIrq)) p.mem =
      .ok ((List.range' 32 16).foldl
        (fun m vector ↦ writeGate statics address m (vector, (.unhandledIrq, 0))) p.mem) := by
    refine foldlM_eq_foldl fun m vector hvector ↦ ?_
    have hbyte : (UInt8.ofNat vector).toNat = vector := by
      have hlt : vector < 32 + 16 := (List.mem_range'_1.mp hvector).2
      exact UInt8.toNat_ofNat_of_lt' (by show vector < 256; omega)
    rw [setHandler_eq, hbyte]
    rfl
  rw [init, hrange]
  simp only [ok_bind, setHandler_eq]
  rw [setHandlerWithIst_eq _ _ _ _ (by decide)]
  simp only [ok_bind, pure_eq_ok]
  rw [writes, List.foldl_append, List.foldl_map]
  rfl

/-- The gates in memory, after all of them have been written. -/
theorem words_writes (m : Mem) :
    (writes.foldl (writeGate statics address) m).words statics.idt 16 =
      paint (m.words statics.idt 16)
        (writes.map fun write ↦ (write.1, gateWord (address write.2.1) write.2.2)) := by
  have hist : ∀ write ∈ writes, write.2.2 < 8 := by decide
  rw [← Mem.words_foldl_store, List.foldl_map]
  · rfl
  · rw [List.forall_mem_map]
    exact fun write hwrite ↦ gateWord_lt _ (hist write hwrite)

/-- Writing the gates leaves what is outside the table alone. -/
theorem agreeOn_writes (m : Mem) {start len : ℕ}
    (hout : statics.idt + IDT_SIZE ≤ start ∨ start + len ≤ statics.idt) :
    Mem.AgreeOn (writes.foldl (writeGate statics address) m) m start len := by
  have hsize : IDT_SIZE = 4096 := rfl
  have hvector : ∀ write ∈ writes, write.1 < 256 := by decide
  generalize writes = gates at hvector ⊢
  induction gates generalizing m with
  | nil => exact .refl _ _ _
  | cons gate gates ih =>
    rw [List.forall_mem_cons] at hvector
    have hgate : Mem.AgreeOn (writeGate statics address m gate) m start len :=
      Mem.agreeOn_store (by omega)
    exact (ih _ hvector.2).trans hgate

/-- Behind `gdt::init`, `idt::init` installs the table of the handlers in a table that was empty. -/
theorem init_installs {p p' : Processor} (hgdt : Gdt.init statics p = .ok p')
    (hempty : ∀ vector < 256, p.mem.load (statics.idt + 16 * vector) 16 = 0) :
    ∃ q, init statics address p' = .ok q ∧ Installed statics address q := by
  obtain ⟨loaded, hok, hloaded⟩ := Gdt.init_loads statics p
  obtain rfl : loaded = p' := Except.ok.inj (hok.symm.trans hgdt)
  have hbounds := statics.bounds
  have hbelow := statics.idt_below
  have hsize : IDT_SIZE = 4096 := rfl
  have hlimit : IDT_SIZE - 1 = 4095 := rfl
  have hwords := words_writes statics address loaded.mem
  have hframe := @agreeOn_writes statics address loaded.mem
  rw [init_eq]
  generalize writes.foldl (writeGate statics address) loaded.mem = m at hwords hframe ⊢
  refine ⟨_, rfl, ?_⟩
  -- Only the operand of `lidt` is written after the gates.
  have hpointer (start len : ℕ)
      (hout : statics.pointer + 10 ≤ start ∨ start + len ≤ statics.pointer) :
      (writePointer m statics.pointer (IDT_SIZE - 1) statics.idt).load start len =
        m.load start len :=
    Mem.load_congr ((Mem.agreeOn_store (by omega)).trans (Mem.agreeOn_store (by omega)))
  have hkept (start len : ℕ)
      (hout : statics.pointer + 10 ≤ start ∨ start + len ≤ statics.pointer)
      (hout' : statics.idt + IDT_SIZE ≤ start ∨ start + len ≤ statics.idt) :
      (writePointer m statics.pointer (IDT_SIZE - 1) statics.idt).load start len =
        loaded.mem.load start len :=
    (hpointer start len hout).trans (Mem.load_congr (hframe hout'))
  constructor
  case gdtr_eq => exact hloaded.gdtr_eq
  case tr_eq => exact hloaded.tr_eq
  case cs_eq => exact hloaded.cs_eq
  case ss_eq => exact hloaded.ss_eq
  case idtr_eq =>
    rw [load, Processor.lidt, Processor.tableRegister, writePointer, hlimit]
    dsimp only
    rw [Mem.load_store_of_lt (by omega), Mem.load_store_of_disjoint (by omega),
      Mem.load_store_of_lt (by omega)]
  case code_eq =>
    rw [← hloaded.code_eq]
    exact hkept (statics.gdt + 8) 8 (by omega) (by omega)
  case stack_eq =>
    rw [← hloaded.stack_eq]
    exact hkept (statics.tss + 36) 8 (by omega) (by omega)
  case gate_eq =>
    intro vector hvector
    have hzero : loaded.mem.words statics.idt 16 vector = 0 := by
      rw [← hempty vector hvector]
      exact Mem.load_congr (hloaded.idt_kept.mono (by omega) (by omega))
    have hword : m.words statics.idt 16 vector = tableWord address vector := by
      rw [hwords, paint_map_eq_lookup _ (fun gate : Handler × ℕ ↦ gateWord (address gate.1) gate.2),
        lookup_writes vector hvector, hzero]
      rw [tableWord]
      cases gateOf vector <;> rfl
    exact (hpointer (statics.idt + 16 * vector) 16 (by omega)).trans hword

end Init

end Idt

end RustBL
