import RustBL.Kernel.Tables.Processor
import RustBL.Library.Checked
import RustBL.Library.Spans

/-!
# The global descriptor table and the task segment

`gdt::init` builds a table of five words and a task segment in static memory, and loads both.
`Statics` is where the linker put the tables. The descriptor of the task segment is put together
with shifts and masks from a base address and a limit that the processor takes apart again:
`taskDescriptor_fields` is the round trip.

`init_loads` is what the initialisation leaves: it does not fault, and the processor has the code
segment, the stack of the double fault and the interrupted stack where the interrupt gates expect
them.
-/

set_option autoImplicit false
set_option relaxedAutoImplicit false

namespace RustBL

/-! ### The tables in memory -/

namespace Gdt

/-- `DOUBLE_FAULT_IST_INDEX`. -/
def DOUBLE_FAULT_IST_INDEX : UInt8 := 0
/-- The size of the stack of the double fault. -/
def FAULT_STACK_SIZE : ℕ := 4096 * 4
/-- `size_of::<TaskStateSegment>()`. -/
def TSS_SIZE : ℕ := 104
/-- The entries of the table. -/
def GDT_ENTRIES : ℕ := 5

/-- The writable bit of a data segment. -/
def WRITABLE : UInt64 := (1 : UInt64) <<< 41
/-- The code bit. -/
def EXECUTABLE : UInt64 := (1 : UInt64) <<< 43
/-- Set for code and data segments, clear for system segments. -/
def DESCRIPTOR_TYPE : UInt64 := (1 : UInt64) <<< 44
/-- The present bit. -/
def PRESENT : UInt64 := (1 : UInt64) <<< 47
/-- The flag of 64-bit code. -/
def LONG_MODE : UInt64 := (1 : UInt64) <<< 53

/-- The selector of the code segment. -/
def KERNEL_CODE_SELECTOR : ℕ := 1 * 8
/-- The selector of the data segment. -/
def KERNEL_DATA_SELECTOR : ℕ := 2 * 8
/-- The selector of the task segment. -/
def TSS_SELECTOR : ℕ := 3 * 8

end Gdt

/-- `size_of::<DescriptorTablePointer>()`. -/
def POINTER_SIZE : ℕ := 10

/-- `size_of::<Idt>()`. -/
def IDT_SIZE : ℕ := 4096

/-- Where the linker put the statics, and where the operands of `lgdt` and `lidt` are: aligned, in
the address space, and without overlap. -/
structure Statics where
  /-- `FAULT_STACK`. -/
  faultStack : ℕ
  /-- `TSS`. -/
  tss : ℕ
  /-- `GDT`. -/
  gdt : ℕ
  /-- `IDT`. -/
  idt : ℕ
  /-- The local variable `pointer`. -/
  pointer : ℕ
  stack_aligned : 16 ∣ faultStack
  stack_below : faultStack + Gdt.FAULT_STACK_SIZE < 2 ^ 64
  tss_below : tss + Gdt.TSS_SIZE < 2 ^ 64
  gdt_below : gdt + 8 * Gdt.GDT_ENTRIES < 2 ^ 64
  idt_below : idt + IDT_SIZE < 2 ^ 64
  apart : [Span.mk faultStack Gdt.FAULT_STACK_SIZE, ⟨tss, Gdt.TSS_SIZE⟩,
    ⟨gdt, 8 * Gdt.GDT_ENTRIES⟩, ⟨idt, IDT_SIZE⟩, ⟨pointer, POINTER_SIZE⟩].Pairwise Span.Apart

namespace Statics

/-- One past the stack of the double fault, where it begins to grow. -/
def stackTop (statics : Statics) : ℕ :=
  statics.faultStack + Gdt.FAULT_STACK_SIZE

end Statics

namespace Gdt

/-- The address of a stack pointer of the interrupt stack table: the segment is packed, so the table
is at offset 36. -/
def istAt (tss index : ℕ) : ℕ :=
  tss + 36 + 8 * index

/-- The two words of the descriptor of a task segment. -/
def tssDescriptor (tssBase tssLimit : UInt64) : UInt64 × UInt64 :=
  let limitLow : UInt64 := tssLimit &&& 0xffff
  let baseLow : UInt64 := (tssBase &&& 0xffffff) <<< 16
  let kind : UInt64 := (0b1001 : UInt64) <<< 40
  let limitHigh : UInt64 := ((tssLimit >>> 16) &&& 0xf) <<< 48
  let baseHigh : UInt64 := ((tssBase >>> 24) &&& 0xff) <<< 56
  (limitLow ||| baseLow ||| kind ||| PRESENT ||| limitHigh ||| baseHigh, tssBase >>> 32)

/-- `GDT[index] = value`. -/
def setEntry (m : Mem) (gdt index : ℕ) (value : UInt64) : Mem :=
  m.store (gdt + 8 * index) 8 value.toNat

/-- Write the operand of `lgdt` or `lidt`. -/
def writePointer (m : Mem) (addr limit base : ℕ) : Mem :=
  (m.store addr 2 limit).store (addr + 2) 8 base

/-- The part of `gdt::init` that writes memory. -/
def writeTables (statics : Statics) (m : Mem) : Mem :=
  let m := m.store (istAt statics.tss DOUBLE_FAULT_IST_INDEX.toNat) 8 statics.stackTop
  let m := setEntry m statics.gdt 0 0
  let m := setEntry m statics.gdt 1 (DESCRIPTOR_TYPE ||| PRESENT ||| EXECUTABLE ||| LONG_MODE)
  let m := setEntry m statics.gdt 2 (DESCRIPTOR_TYPE ||| PRESENT ||| WRITABLE)
  let (low, high) := tssDescriptor (.ofNat statics.tss) (.ofNat (TSS_SIZE - 1))
  let m := setEntry m statics.gdt 3 low
  let m := setEntry m statics.gdt 4 high
  writePointer m statics.pointer (GDT_ENTRIES * 8 - 1) statics.gdt

/-- `gdt::init`. -/
def init (statics : Statics) (p : Processor) : Except Exception Processor := do
  let p := { p with mem := writeTables statics p.mem }
  let p := p.lgdt statics.pointer
  let p ← p.loadCs KERNEL_CODE_SELECTOR
  let p ← p.loadDs KERNEL_DATA_SELECTOR
  let p ← p.loadEs KERNEL_DATA_SELECTOR
  let p ← p.loadSs KERNEL_DATA_SELECTOR
  p.ltr TSS_SELECTOR

/-- `fault_stack_range`. -/
def faultStackRange (statics : Statics) : ℕ × ℕ :=
  (statics.faultStack, statics.faultStack + FAULT_STACK_SIZE)

/-! ### The descriptor of the task segment -/

section Descriptor

variable {base limit : UInt64}

theorem toNat_low_mask (value : UInt64) {mask : UInt64} (width : ℕ)
    (hmask : mask.toNat = 2 ^ width - 1) : (value &&& mask).toNat = value.toNat % 2 ^ width := by
  rw [UInt64.toNat_and, hmask, Nat.and_two_pow_sub_one_eq_mod]

/-- Shifting a small number does not overflow. -/
theorem toNat_shifted {value shift : UInt64} (width count : ℕ) (hvalue : value.toNat < 2 ^ width)
    (hshift : shift.toNat = count) (hfits : width + count ≤ 64) (hcount : count < 64) :
    (value <<< shift).toNat = value.toNat * 2 ^ count := by
  have hlt : value.toNat * 2 ^ count < 2 ^ 64 := by
    calc value.toNat * 2 ^ count < 2 ^ width * 2 ^ count :=
          Nat.mul_lt_mul_of_pos_right hvalue (Nat.two_pow_pos count)
      _ = 2 ^ (width + count) := (Nat.pow_add _ _ _).symm
      _ ≤ 2 ^ 64 := Nat.pow_le_pow_right (by decide) hfits
  rw [UInt64.toNat_shiftLeft, hshift, Nat.mod_eq_of_lt hcount, Nat.shiftLeft_eq,
    Nat.mod_eq_of_lt hlt]

/-- The descriptor as one word, put together from its fields. -/
theorem tssDescriptor_word (base limit : UInt64) :
    (tssDescriptor base limit).1.toNat + 256 ^ 8 * (tssDescriptor base limit).2.toNat =
      limit.toNat % 2 ^ 16 + 2 ^ 16 * (base.toNat % 2 ^ 24 + 2 ^ 24 * (9 + 2 ^ 7 * (1 + 2 *
        (limit.toNat / 2 ^ 16 % 2 ^ 4 + 2 ^ 8 * (base.toNat / 2 ^ 24 % 2 ^ 8 + 2 ^ 8 *
          (base.toNat / 2 ^ 32)))))) := by
  have hlimitLow : (limit &&& 0xffff).toNat = limit.toNat % 2 ^ 16 := toNat_low_mask limit 16 rfl
  have hbaseLow : ((base &&& 0xffffff) <<< 16).toNat = base.toNat % 2 ^ 24 * 2 ^ 16 := by
    have hmask : (base &&& 0xffffff).toNat = base.toNat % 2 ^ 24 := toNat_low_mask base 24 rfl
    rw [toNat_shifted 24 16 (by omega) rfl (by decide) (by decide), hmask]
  have hlimitHigh : (((limit >>> 16) &&& 0xf) <<< 48).toNat =
      limit.toNat / 2 ^ 16 % 2 ^ 4 * 2 ^ 48 := by
    have hmask : ((limit >>> 16) &&& 0xf).toNat = limit.toNat / 2 ^ 16 % 2 ^ 4 := by
      rw [toNat_low_mask _ 4 rfl, UInt64.toNat_shiftRight, Nat.shiftRight_eq_div_pow]
      rfl
    rw [toNat_shifted 4 48 (by omega) rfl (by decide) (by decide), hmask]
  have hbaseHigh : (((base >>> 24) &&& 0xff) <<< 56).toNat =
      base.toNat / 2 ^ 24 % 2 ^ 8 * 2 ^ 56 := by
    have hmask : ((base >>> 24) &&& 0xff).toNat = base.toNat / 2 ^ 24 % 2 ^ 8 := by
      rw [toNat_low_mask _ 8 rfl, UInt64.toNat_shiftRight, Nat.shiftRight_eq_div_pow]
      rfl
    rw [toNat_shifted 8 56 (by omega) rfl (by decide) (by decide), hmask]
  have hkind : ((0b1001 : UInt64) <<< 40).toNat = 9 * 2 ^ 40 := by decide
  have hpresent : PRESENT.toNat = 1 * 2 ^ 47 := by decide
  have hlow : (tssDescriptor base limit).1.toNat = limit.toNat % 2 ^ 16 +
      2 ^ 16 * (base.toNat % 2 ^ 24) + 2 ^ 40 * 9 + 2 ^ 47 * 1 +
        2 ^ 48 * (limit.toNat / 2 ^ 16 % 2 ^ 4) + 2 ^ 56 * (base.toNat / 2 ^ 24 % 2 ^ 8) := by
    rw [tssDescriptor]
    simp only [UInt64.toNat_or]
    rw [hlimitLow, hbaseLow, hlimitHigh, hbaseHigh, hkind, hpresent, or_shifted 16 _ (by omega),
      or_shifted 40 _ (by omega), or_shifted 47 _ (by omega), or_shifted 48 _ (by omega),
      or_shifted 56 _ (by omega)]
  have hhigh : (tssDescriptor base limit).2.toNat = base.toNat / 2 ^ 32 := by
    rw [tssDescriptor, UInt64.toNat_shiftRight, Nat.shiftRight_eq_div_pow]
    rfl
  rw [hlow, hhigh]
  ring

/-- The descriptor as the processor reads it. -/
def taskDescriptor (base limit : UInt64) : Descriptor :=
  ⟨(tssDescriptor base limit).1.toNat + 256 ^ 8 * (tssDescriptor base limit).2.toNat⟩

/-- What the processor finds in a word that is put together this way. -/
theorem fields_of_word {word limitLow limitHigh baseLow baseMiddle baseHigh : ℕ}
    (hword : word = limitLow + 2 ^ 16 * (baseLow + 2 ^ 24 * (9 + 2 ^ 7 * (1 + 2 *
      (limitHigh + 2 ^ 8 * (baseMiddle + 2 ^ 8 * baseHigh))))))
    (hlimitLow : limitLow < 2 ^ 16) (hlimitHigh : limitHigh < 2 ^ 4) (hbaseLow : baseLow < 2 ^ 24)
    (hbaseMiddle : baseMiddle < 2 ^ 8) (hbaseHigh : baseHigh < 2 ^ 32) :
    (Descriptor.mk word).isSegment = false ∧ (Descriptor.mk word).kind = 0b1001 ∧
      field word 104 5 = 0 ∧ (Descriptor.mk word).present = true ∧
      (Descriptor.mk word).base = baseLow + 2 ^ 24 * baseMiddle + 2 ^ 32 * baseHigh ∧
      (Descriptor.mk word).limit = limitLow + 2 ^ 16 * limitHigh := by
  have hpages : (Descriptor.mk word).inPages = false := by
    rw [Descriptor.inPages, Nat.testBit_eq_decide_div_mod_eq, decide_eq_false_iff_not]
    dsimp only
    omega
  rw [Descriptor.isSegment, Descriptor.kind, Descriptor.present, Descriptor.base,
    Descriptor.limit, hpages, Nat.testBit_eq_decide_div_mod_eq, Nat.testBit_eq_decide_div_mod_eq,
    decide_eq_false_iff_not, decide_eq_true_eq]
  unfold field
  dsimp only
  refine ⟨by omega, by omega, by omega, by omega, by omega, ?_⟩
  rw [if_neg Bool.false_ne_true]
  omega

/-- The processor finds an available task segment with the base and the limit that went in. -/
theorem taskDescriptor_fields (base : UInt64) (hlimit : limit.toNat < 2 ^ 20) :
    (taskDescriptor base limit).isSegment = false ∧ (taskDescriptor base limit).kind = 0b1001 ∧
      field (taskDescriptor base limit).word 104 5 = 0 ∧
      (taskDescriptor base limit).present = true ∧
      (taskDescriptor base limit).base = base.toNat ∧
      (taskDescriptor base limit).limit = limit.toNat := by
  have hbase := base.toNat_lt
  obtain ⟨hsegment, hkind, hupper, hpresent, hbaseEq, hlimitEq⟩ := fields_of_word
    (tssDescriptor_word base limit) (by omega) (by omega) (by omega) (by omega) (by omega)
  refine ⟨hsegment, hkind, hupper, hpresent, hbaseEq.trans ?_, hlimitEq.trans ?_⟩
  · omega
  · omega

end Descriptor

/-! ### The initialisation -/

/-- The code segment as the processor reads it. -/
def codeDescriptor : Descriptor := ⟨0x20980000000000⟩
/-- The data segment as the processor reads it. -/
def dataDescriptor : Descriptor := ⟨0x920000000000⟩

end Gdt

/-- The statics do not overlap, in numbers. -/
theorem Statics.bounds (statics : Statics) :
    (statics.faultStack + 16384 ≤ statics.tss ∨ statics.tss + 104 ≤ statics.faultStack) ∧
    (statics.faultStack + 16384 ≤ statics.gdt ∨ statics.gdt + 40 ≤ statics.faultStack) ∧
    (statics.faultStack + 16384 ≤ statics.idt ∨ statics.idt + 4096 ≤ statics.faultStack) ∧
    (statics.faultStack + 16384 ≤ statics.pointer ∨ statics.pointer + 10 ≤ statics.faultStack) ∧
    (statics.tss + 104 ≤ statics.gdt ∨ statics.gdt + 40 ≤ statics.tss) ∧
    (statics.tss + 104 ≤ statics.idt ∨ statics.idt + 4096 ≤ statics.tss) ∧
    (statics.tss + 104 ≤ statics.pointer ∨ statics.pointer + 10 ≤ statics.tss) ∧
    (statics.gdt + 40 ≤ statics.idt ∨ statics.idt + 4096 ≤ statics.gdt) ∧
    (statics.gdt + 40 ≤ statics.pointer ∨ statics.pointer + 10 ≤ statics.gdt) ∧
    (statics.idt + 4096 ≤ statics.pointer ∨ statics.pointer + 10 ≤ statics.idt) := by
  have hapart := statics.apart
  simp only [List.pairwise_cons, List.forall_mem_cons, Span.Apart, Span.stop,
    Gdt.FAULT_STACK_SIZE, Gdt.TSS_SIZE, Gdt.GDT_ENTRIES, IDT_SIZE, POINTER_SIZE] at hapart
  obtain ⟨⟨h1, h2, h3, h4, -⟩, ⟨h5, h6, h7, -⟩, ⟨h8, h9, -⟩, ⟨h10, -⟩, -⟩ := hapart
  exact ⟨h1, h2, h3, h4, h5, h6, h7, h8, h9, h10⟩

namespace Gdt

section Init

variable (statics : Statics) (m : Mem)

/-- What the processor reads of the tables. -/
theorem load_writeTables :
    Processor.tableRegister (writeTables statics m) statics.pointer = ⟨39, statics.gdt⟩ ∧
      (writeTables statics m).load (statics.gdt + 8) 8 = codeDescriptor.word ∧
      (writeTables statics m).load (statics.gdt + 16) 8 = dataDescriptor.word ∧
      (writeTables statics m).load (statics.gdt + 24) 16 =
        (taskDescriptor (.ofNat statics.tss) (.ofNat (TSS_SIZE - 1))).word ∧
      (writeTables statics m).load (statics.tss + 36) 8 = statics.stackTop := by
  have hbounds := statics.bounds
  have hgdt := statics.gdt_below
  have hstack := statics.stack_below
  have htop : statics.stackTop < 256 ^ 8 := hstack
  have hgdtLt : statics.gdt < 256 ^ 8 := by omega
  have hcode : (DESCRIPTOR_TYPE ||| PRESENT ||| EXECUTABLE ||| LONG_MODE).toNat =
    codeDescriptor.word := by decide
  have hdata : (DESCRIPTOR_TYPE ||| PRESENT ||| WRITABLE).toNat = dataDescriptor.word := by decide
  have hlow := (tssDescriptor (.ofNat statics.tss) (.ofNat (TSS_SIZE - 1))).1.toNat_lt
  have hhigh := (tssDescriptor (.ofNat statics.tss) (.ofNat (TSS_SIZE - 1))).2.toNat_lt
  have hcodeLt : codeDescriptor.word < 256 ^ 8 := by decide
  have hdataLt : dataDescriptor.word < 256 ^ 8 := by decide
  have hist : istAt statics.tss DOUBLE_FAULT_IST_INDEX.toNat = statics.tss + 36 := rfl
  have hlimit : GDT_ENTRIES * 8 - 1 = 39 := rfl
  simp only [writeTables, writePointer, setEntry, Processor.tableRegister, taskDescriptor, hcode,
    hdata, hist, hlimit]
  rw [Mem.load_add _ (statics.gdt + 24) 8 8]
  refine ⟨?_, ?_, ?_, ?_, ?_⟩
  all_goals simp (disch := omega) only [Mem.load_store_of_disjoint, Mem.load_store_of_lt]

/-- The writes leave the interrupt table alone. -/
theorem agreeOn_writeTables : Mem.AgreeOn (writeTables statics m) m statics.idt IDT_SIZE := by
  have hbounds := statics.bounds
  have hsize : IDT_SIZE = 4096 := rfl
  intro a hlow hhigh
  have hist : istAt statics.tss DOUBLE_FAULT_IST_INDEX.toNat = statics.tss + 36 := rfl
  simp only [writeTables, writePointer, setEntry, hist]
  simp (disch := omega) only [Mem.store_apply_of_not_mem]

end Init

/-- What `gdt::init` leaves behind. -/
structure Loaded (statics : Statics) (before p : Processor) : Prop where
  gdtr_eq : p.gdtr = ⟨39, statics.gdt⟩
  idtr_eq : p.idtr = before.idtr
  tr_eq : p.tr = ⟨TSS_SELECTOR, TSS_SIZE - 1, statics.tss⟩
  cs_eq : p.cs = KERNEL_CODE_SELECTOR
  ds_eq : p.ds = KERNEL_DATA_SELECTOR
  es_eq : p.es = KERNEL_DATA_SELECTOR
  ss_eq : p.ss = KERNEL_DATA_SELECTOR
  code_eq : p.mem.load (statics.gdt + 8) 8 = codeDescriptor.word
  stack_eq : p.mem.load (statics.tss + 36) 8 = statics.stackTop
  idt_kept : Mem.AgreeOn p.mem before.mem statics.idt IDT_SIZE

section Loading

variable (statics : Statics) (p : Processor)

/-- The code segment passes its checks. -/
theorem codeSegment_eq (hgdtr : p.gdtr = ⟨39, statics.gdt⟩)
    (hcode : p.mem.load (statics.gdt + 8) 8 = codeDescriptor.word) :
    p.codeSegment KERNEL_CODE_SELECTOR = .ok () := by
  have hdescriptor : p.descriptor KERNEL_CODE_SELECTOR 8 = some codeDescriptor := by
    rw [Processor.descriptor, hgdtr]
    dsimp only
    rw [if_neg (by decide)]
    exact congrArg (fun word ↦ some (Descriptor.mk word)) hcode
  rw [Processor.codeSegment, hdescriptor]
  rfl

/-- The data segment passes its checks, also for a stack. -/
theorem dataSegment_eq (hgdtr : p.gdtr = ⟨39, statics.gdt⟩)
    (hdata : p.mem.load (statics.gdt + 16) 8 = dataDescriptor.word) (stack : Bool) :
    p.dataSegment KERNEL_DATA_SELECTOR stack = .ok () := by
  have hdescriptor : p.descriptor KERNEL_DATA_SELECTOR 8 = some dataDescriptor := by
    rw [Processor.descriptor, hgdtr]
    dsimp only
    rw [if_neg (by decide)]
    exact congrArg (fun word ↦ some (Descriptor.mk word)) hdata
  rw [Processor.dataSegment, hdescriptor]
  cases stack <;> rfl

/-- The task register takes the task segment. -/
theorem ltr_eq (hgdtr : p.gdtr = ⟨39, statics.gdt⟩) (htask : p.mem.load (statics.gdt + 24) 16 =
      (taskDescriptor (.ofNat statics.tss) (.ofNat (TSS_SIZE - 1))).word) :
    ∃ busy, p.ltr TSS_SELECTOR = .ok { p with
      mem := p.mem.store (statics.gdt + 24) 16 busy
      tr := ⟨TSS_SELECTOR, TSS_SIZE - 1, statics.tss⟩ } := by
  have hbelow := statics.tss_below
  have hbase : (UInt64.ofNat statics.tss).toNat = statics.tss :=
    UInt64.toNat_ofNat_of_lt' (by show statics.tss < 2 ^ 64; omega)
  have hsmall : (UInt64.ofNat (TSS_SIZE - 1)).toNat < 2 ^ 20 := by decide
  obtain ⟨hsegment, hkind, hupper, hpresent, hbaseEq, hlimit⟩ :=
    taskDescriptor_fields (.ofNat statics.tss) hsmall
  have hdescriptor : p.descriptor TSS_SELECTOR 16 =
      some (taskDescriptor (.ofNat statics.tss) (.ofNat (TSS_SIZE - 1))) := by
    rw [Processor.descriptor, hgdtr]
    dsimp only
    rw [if_neg (by decide)]
    exact congrArg (fun word ↦ some (Descriptor.mk word)) htask
  refine ⟨(taskDescriptor (.ofNat statics.tss) (.ofNat (TSS_SIZE - 1))).word ||| 2 ^ 41, ?_⟩
  rw [Processor.ltr, hdescriptor]
  dsimp only
  rw [hsegment, hkind, hupper, hpresent, if_neg (by decide), if_neg (by decide), hlimit, hbaseEq,
    hbase, hgdtr]
  rfl

/-- The segment registers are loaded one after the other. -/
theorem segments_eq (hgdtr : p.gdtr = ⟨39, statics.gdt⟩)
    (hcode : p.mem.load (statics.gdt + 8) 8 = codeDescriptor.word)
    (hdata : p.mem.load (statics.gdt + 16) 8 = dataDescriptor.word) :
    p.loadCs KERNEL_CODE_SELECTOR = .ok { p with cs := KERNEL_CODE_SELECTOR } ∧
      p.loadDs KERNEL_DATA_SELECTOR = .ok { p with ds := KERNEL_DATA_SELECTOR } ∧
      p.loadEs KERNEL_DATA_SELECTOR = .ok { p with es := KERNEL_DATA_SELECTOR } ∧
      p.loadSs KERNEL_DATA_SELECTOR = .ok { p with ss := KERNEL_DATA_SELECTOR } := by
  have hcs := codeSegment_eq statics p hgdtr hcode
  have hds := dataSegment_eq statics p hgdtr hdata
  rw [Processor.loadCs, Processor.loadDs, Processor.loadEs, Processor.loadSs, hcs, hds, hds,
    ok_bind, ok_bind, ok_bind, ok_bind]
  exact ⟨rfl, rfl, rfl, rfl⟩

end Loading

/-- `gdt::init` never faults, and leaves the tables loaded. -/
theorem init_loads (statics : Statics) (p : Processor) :
    ∃ p', init statics p = .ok p' ∧ Loaded statics p p' := by
  obtain ⟨hpointer, hcode, hdata, htask, hstack⟩ := load_writeTables statics p.mem
  have hkept := agreeOn_writeTables statics p.mem
  have hbounds := statics.bounds
  have hsize : IDT_SIZE = 4096 := rfl
  rw [init]
  generalize writeTables statics p.mem = mem at *
  let loading (cs ds es ss : ℕ) : Processor :=
    ⟨mem, ⟨39, statics.gdt⟩, p.idtr, p.tr, cs, ds, es, ss⟩
  have hsegments (cs ds es ss : ℕ) :
      (loading cs ds es ss).loadCs KERNEL_CODE_SELECTOR =
          .ok (loading KERNEL_CODE_SELECTOR ds es ss) ∧
        (loading cs ds es ss).loadDs KERNEL_DATA_SELECTOR =
          .ok (loading cs KERNEL_DATA_SELECTOR es ss) ∧
        (loading cs ds es ss).loadEs KERNEL_DATA_SELECTOR =
          .ok (loading cs ds KERNEL_DATA_SELECTOR ss) ∧
        (loading cs ds es ss).loadSs KERNEL_DATA_SELECTOR =
          .ok (loading cs ds es KERNEL_DATA_SELECTOR) :=
    segments_eq statics (loading cs ds es ss) rfl hcode hdata
  obtain ⟨busy, hltr⟩ := ltr_eq statics (loading KERNEL_CODE_SELECTOR KERNEL_DATA_SELECTOR
    KERNEL_DATA_SELECTOR KERNEL_DATA_SELECTOR) rfl htask
  have hlgdt : Processor.lgdt { p with mem } statics.pointer = loading p.cs p.ds p.es p.ss := by
    rw [Processor.lgdt, hpointer]
  rw [hlgdt, (hsegments _ _ _ _).1, ok_bind, (hsegments _ _ _ _).2.1, ok_bind,
    (hsegments _ _ _ _).2.2.1, ok_bind, (hsegments _ _ _ _).2.2.2, ok_bind]
  refine ⟨_, hltr, rfl, rfl, rfl, rfl, rfl, rfl, rfl, ?_, ?_, ?_⟩
  · exact (Mem.load_store_of_disjoint (by omega)).trans hcode
  · exact (Mem.load_store_of_disjoint (by omega)).trans hstack
  · exact (Mem.agreeOn_store (by omega)).trans hkept

end Gdt

end RustBL
