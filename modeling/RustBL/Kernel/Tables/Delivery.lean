import RustBL.Kernel.Tables.Idt

/-!
# Interrupts and exceptions with the tables of the kernel

What the processor makes of every vector once `gdt::init` and `idt::init` have run. A vector with a
gate enters its handler with interrupts masked; the handler finds its frame where its declaration
says, and the double fault has a stack of its own (`deliver_enters`). A vector without a gate is a
general protection fault (`deliver_missing`), and so is a frame that the stack does not take a fault
(`deliver_faults`). `init_delivers` puts them together, for any memory that still holds the tables.

`raise_handled` follows the faults of such a delivery. Some handler is always reached, whatever
stack was interrupted, as long as the stack of the double fault takes a frame: the processor never
shuts down.
-/

set_option autoImplicit false
set_option relaxedAutoImplicit false

namespace RustBL

/-! ### Frames -/

namespace Processor

section Frames

variable {m : Mem} {top : ℕ} {words : List ℕ}

theorem push_eq (m : Mem) {rsp : ℕ} (hlow : 8 ≤ rsp) (hhigh : rsp < 2 ^ 64) (value : ℕ) :
    push (m, rsp) value = (m.store (rsp - 8) 8 value, rsp - 8) := by
  have hwrap : (rsp + 2 ^ 64 - 8) % 2 ^ 64 = rsp - 8 := by omega
  rw [push, hwrap]

/-- The words that are pushed lie below each other. -/
theorem load_pushes (hfits : ∀ word ∈ words, word < 2 ^ 64) (hlow : 8 * words.length ≤ top)
    (hhigh : top < 2 ^ 64) :
    (words.foldl push (m, top)).2 = top - 8 * words.length ∧
      Mem.SameOff (Set.Ico (top - 8 * words.length) top) m (words.foldl push (m, top)).1 ∧
      ∀ index (hindex : index < words.length),
        (words.foldl push (m, top)).1.load (top - 8 * (index + 1)) 8 = words[index] := by
  induction words using List.reverseRecOn with
  | nil => exact ⟨rfl, Mem.SameOff.refl _ _, fun index hindex ↦ absurd hindex (Nat.not_lt_zero _)⟩
  | append_singleton words word ih =>
    have hlength : (words ++ [word]).length = words.length + 1 := List.length_append
    rw [hlength] at hlow
    rw [List.forall_mem_append, List.forall_mem_singleton] at hfits
    obtain ⟨hrsp, hkept, hwords⟩ := ih hfits.1 (by omega)
    rw [List.foldl_append, List.foldl_cons, List.foldl_nil]
    generalize words.foldl push (m, top) = stack at hrsp hkept hwords ⊢
    obtain ⟨mem, rsp⟩ := stack
    dsimp only at hrsp hkept hwords ⊢
    rw [push_eq mem (by omega) (by omega)]
    refine ⟨by omega, ?_, fun index hindex ↦ ?_⟩
    · have hstore : Mem.SameOff (Set.Ico (rsp - 8) (rsp - 8 + 8)) mem
          (mem.store (rsp - 8) 8 word) := Mem.sameOff_store _ _ _ _
      refine (hkept.mono ?_).trans (hstore.mono ?_)
      · exact Set.Ico_subset_Ico (by omega) le_rfl
      · exact Set.Ico_subset_Ico (by omega) (by omega)
    · by_cases hlast : index = words.length
      · have haddr : top - 8 * (index + 1) = rsp - 8 := by omega
        rw [haddr, Mem.load_store_of_lt hfits.2]
        simp [hlast]
      · have hbefore : index < words.length := by omega
        rw [Mem.load_store_of_disjoint (by omega), hwords index hbefore,
          List.getElem_append_left hbefore]

end Frames

end Processor

namespace Idt

open Gdt Processor

/-- `InterruptStackFrame`. -/
structure InterruptStackFrame where
  instructionPointer : ℕ
  codeSegment : ℕ
  cpuFlags : ℕ
  stackPointer : ℕ
  stackSegment : ℕ

/-- The frame at an address. -/
def InterruptStackFrame.read (m : Mem) (addr : ℕ) : InterruptStackFrame where
  instructionPointer := m.load addr 8
  codeSegment := m.load (addr + 8) 8
  cpuFlags := m.load (addr + 16) 8
  stackPointer := m.load (addr + 24) 8
  stackSegment := m.load (addr + 32) 8

/-- The size of the error code on the stack of a handler. -/
def Handler.errorCodeSize (handler : Handler) : ℕ :=
  if handler.takesErrorCode then 8 else 0

/-- The registers of what is interrupted are words, and no stack takes a frame that would wrap
around the address space. -/
structure Sound (stackFault : ℕ → Option Exception) (interrupted : Interrupted) : Prop where
  rip_lt : interrupted.rip < 2 ^ 64
  rflags_lt : interrupted.rflags < 2 ^ 64
  rsp_lt : interrupted.rsp < 2 ^ 64
  fits : ∀ top, stackFault top = none → 48 ≤ top

/-- The stack of a gate. -/
def gateTop (statics : Statics) (ist : ℕ) (interrupted : Interrupted) : ℕ :=
  if ist = 0 then interrupted.rsp / 16 * 16 else statics.stackTop

/-- A handler has been entered on a stack that begins at `top`. -/
structure Enters (address : Handler → UInt64) (p : Processor) (interrupted : Interrupted)
    (handler : Handler) (top : ℕ) (entered : Entered) : Prop where
  rip_eq : entered.rip = (address handler).toNat
  cs_eq : entered.cs = KERNEL_CODE_SELECTOR
  masked : entered.masked = true
  rsp_eq : entered.rsp + handler.errorCodeSize + 40 = top
  frame_eq : InterruptStackFrame.read entered.mem (entered.rsp + handler.errorCodeSize) =
    ⟨interrupted.rip, p.cs, interrupted.rflags, interrupted.rsp, p.ss⟩
  kept : Mem.SameOff (Set.Ico entered.rsp top) p.mem entered.mem

/-! ### Delivery -/

/-- What the processor finds in a word that is put together this way. -/
theorem gate_of_word {word low ist middle high : ℕ}
    (hword : word = low + 2 ^ 16 * (8 + 2 ^ 16 * (ist + 2 ^ 8 * (0x8e + 2 ^ 8 *
      (middle + 2 ^ 16 * high))))) (hlow : low < 2 ^ 16) (hist : ist < 8)
    (hmiddle : middle < 2 ^ 16) (hhigh : high < 2 ^ 32) :
    (Descriptor.mk word).isSegment = false ∧ (Descriptor.mk word).kind = 0b1110 ∧
      (Descriptor.mk word).present = true ∧
      (Descriptor.mk word).selector = KERNEL_CODE_SELECTOR ∧ (Descriptor.mk word).ist = ist ∧
      (Descriptor.mk word).offset = low + 2 ^ 16 * middle + 2 ^ 32 * high := by
  have hselector : KERNEL_CODE_SELECTOR = 8 := rfl
  rw [Descriptor.isSegment, Descriptor.kind, Descriptor.present, Descriptor.selector,
    Descriptor.ist, Descriptor.offset, Nat.testBit_eq_decide_div_mod_eq,
    Nat.testBit_eq_decide_div_mod_eq, decide_eq_false_iff_not, decide_eq_true_eq]
  unfold field
  dsimp only
  refine ⟨by omega, by omega, by omega, by omega, by omega, by omega⟩

/-- The processor finds an interrupt gate with what went in. -/
theorem gateWord_fields (handler : UInt64) {ist : ℕ} (hist : ist < 8) :
    (Descriptor.mk (gateWord handler ist)).isSegment = false ∧
      (Descriptor.mk (gateWord handler ist)).kind = 0b1110 ∧
      (Descriptor.mk (gateWord handler ist)).present = true ∧
      (Descriptor.mk (gateWord handler ist)).selector = KERNEL_CODE_SELECTOR ∧
      (Descriptor.mk (gateWord handler ist)).ist = ist ∧
      (Descriptor.mk (gateWord handler ist)).offset = handler.toNat := by
  have hlt := handler.toNat_lt
  obtain ⟨hsegment, hkind, hpresent, hselector, histEq, hoffset⟩ := gate_of_word
    (Eq.refl (gateWord handler ist)) (by omega) hist (by omega) (by omega)
  exact ⟨hsegment, hkind, hpresent, hselector, histEq, hoffset.trans (by omega)⟩

/-- A handler takes an error code when its vector pushes one, and only the double fault asks for a
stack of its own. -/
theorem gateOf_cases : ∀ vector < 256, ∀ gate ∈ gateOf vector,
    pushesErrorCode vector = gate.1.takesErrorCode ∧ gate.2 = if vector = 8 then 1 else 0 := by
  decide +kernel

theorem gateOf_doubleFault {vector ist : ℕ} (h : gateOf vector = some (.doubleFault, ist)) :
    ist = 1 := by
  unfold gateOf at h
  split at h <;> try cases h
  · rfl
  · split_ifs at h
    cases h

section Delivery

variable {statics : Statics} {address : Handler → UInt64} {p : Processor} {vector : ℕ}
  {handler : Handler} {ist : ℕ} {stackFault : ℕ → Option Exception} {errorCode : ℕ}
  {interrupted : Interrupted}

/-- The gate of a vector, as the processor reads it. -/
theorem Installed.gate_word (h : Installed statics address p) (hvector : vector < 256) :
    ¬ p.idtr.limit < 16 * vector + 15 ∧
      p.mem.load (p.idtr.base + 16 * vector) 16 = tableWord address vector := by
  rw [h.idtr_eq]
  exact ⟨by dsimp only; omega, h.gate_eq vector hvector⟩

/-- A vector without a gate is a general protection fault. -/
theorem deliver_missing (h : Installed statics address p) (hvector : vector < 256)
    (hgate : gateOf vector = none) :
    p.deliver stackFault vector errorCode interrupted = .error .generalProtection := by
  obtain ⟨hlimit, hword⟩ := h.gate_word hvector
  have hzero : tableWord address vector = 0 := by rw [tableWord, hgate]
  have hmissing : p.gate vector = .error .generalProtection := by
    rw [Processor.gate, if_neg hlimit]
    dsimp only
    rw [hword, hzero, if_pos (by decide)]
    rfl
  rw [deliver, hmissing]
  rfl

/-- A vector with a gate is delivered on the stack of the gate. -/
theorem deliver_of_gate (h : Installed statics address p) (hvector : vector < 256)
    (hgate : gateOf vector = some (handler, ist)) :
    p.deliver stackFault vector errorCode interrupted =
      match stackFault (gateTop statics ist interrupted) with
      | some fault => .error fault
      | none =>
        let stack := (p.frameWords vector errorCode interrupted).foldl push
          (p.mem, gateTop statics ist interrupted)
        .ok ⟨stack.1, (address handler).toNat, KERNEL_CODE_SELECTOR, stack.2, true⟩ := by
  obtain ⟨hlimit, hword⟩ := h.gate_word hvector
  have hist : ist = 0 ∨ ist = 1 := by
    have histEq := (gateOf_cases vector hvector _ hgate).2
    split_ifs at histEq
    · exact .inr histEq
    · exact .inl histEq
  obtain ⟨hsegment, hkind, hpresent, hselector, histEq, hoffset⟩ :=
    gateWord_fields (address handler) (show ist < 8 by omega)
  rw [tableWord, hgate] at hword
  have hread : p.gate vector = .ok ⟨gateWord (address handler) ist⟩ := by
    rw [Processor.gate, if_neg hlimit]
    dsimp only
    rw [hword, hsegment, hkind, hpresent, if_neg (by decide), if_neg (by decide)]
    rfl
  have hstack : ∃ rsp, p.gateStack ist interrupted.rsp = .ok rsp ∧
      rsp / 16 * 16 = gateTop statics ist interrupted := by
    rw [gateStack, gateTop]
    rcases hist with rfl | rfl
    · exact ⟨interrupted.rsp, rfl, rfl⟩
    · have haligned := statics.stack_aligned
      have hsize : FAULT_STACK_SIZE = 16384 := rfl
      refine ⟨statics.stackTop, ?_, ?_⟩
      · rw [if_neg (by decide), h.tr_eq]
        dsimp only
        rw [if_neg (by decide)]
        exact congrArg Except.ok h.stack_eq
      · rw [if_neg (by decide), Statics.stackTop]
        omega
  obtain ⟨rsp, hrsp, htop⟩ := hstack
  rw [deliver, hread, ok_bind, hselector, codeSegment_eq statics p h.gdtr_eq h.code_eq, ok_bind,
    histEq, hrsp, ok_bind]
  dsimp only
  rw [htop, hoffset, hkind]
  cases stackFault (gateTop statics ist interrupted) <;> rfl

/-- A stack that does not take the frame is a fault. -/
theorem deliver_faults (h : Installed statics address p) (hvector : vector < 256)
    (hgate : gateOf vector = some (handler, ist)) {fault : Exception}
    (hfault : stackFault (gateTop statics ist interrupted) = some fault) :
    p.deliver stackFault vector errorCode interrupted = .error fault := by
  rw [deliver_of_gate h hvector hgate, hfault]

/-- A stack that takes the frame takes the handler. -/
theorem deliver_enters (h : Installed statics address p) (hvector : vector < 256)
    (hgate : gateOf vector = some (handler, ist)) (hsound : Sound stackFault interrupted)
    (hcode : errorCode < 2 ^ 64)
    (hfault : stackFault (gateTop statics ist interrupted) = none) :
    ∃ entered, p.deliver stackFault vector errorCode interrupted = .ok entered ∧
      Enters address p interrupted handler (gateTop statics ist interrupted) entered := by
  have hpushes := (gateOf_cases vector hvector _ hgate).1
  dsimp only at hpushes
  have htop : gateTop statics ist interrupted < 2 ^ 64 := by
    have hrsp := hsound.rsp_lt
    have hbelow := statics.stack_below
    rw [gateTop]
    split_ifs
    · omega
    · exact hbelow
  have hroom := hsound.fits _ hfault
  rw [deliver_of_gate h hvector hgate, hfault]
  refine ⟨_, rfl, ?_⟩
  generalize gateTop statics ist interrupted = top at htop hroom ⊢
  have hcode' : ∀ word ∈ (if pushesErrorCode vector then [errorCode] else []), word < 2 ^ 64 := by
    split_ifs
    · exact List.forall_mem_singleton.mpr hcode
    · exact List.forall_mem_nil _
  have hsize : 8 * (if pushesErrorCode vector then [errorCode] else []).length =
      handler.errorCodeSize := by
    rw [Handler.errorCodeSize, hpushes]
    cases handler.takesErrorCode <;> rfl
  have hsmall : handler.errorCodeSize ≤ 8 := by
    rw [Handler.errorCodeSize]
    split_ifs <;> decide
  rw [frameWords]
  generalize (if pushesErrorCode vector then [errorCode] else []) = rest at hcode' hsize ⊢
  have hss : p.ss < 2 ^ 64 := h.ss_eq ▸ by decide
  have hcs : p.cs < 2 ^ 64 := h.cs_eq ▸ by decide
  have hfits : ∀ word ∈ [p.ss, interrupted.rsp, interrupted.rflags, p.cs, interrupted.rip] ++ rest,
      word < 2 ^ 64 := by
    rw [List.forall_mem_append]
    refine ⟨?_, hcode'⟩
    simp only [List.forall_mem_cons]
    exact ⟨hss, hsound.rsp_lt, hsound.rflags_lt, hcs, hsound.rip_lt, List.forall_mem_nil _⟩
  have hlength : ([p.ss, interrupted.rsp, interrupted.rflags, p.cs, interrupted.rip] ++
      rest).length = 5 + rest.length := List.length_append
  obtain ⟨hrsp, hkept, hwords⟩ := load_pushes (m := p.mem) hfits
    (by rw [hlength]; omega) htop
  rw [hlength] at hrsp
  constructor
  case rip_eq => rfl
  case cs_eq => rfl
  case masked => rfl
  case rsp_eq =>
    dsimp only
    omega
  case frame_eq =>
    dsimp only
    have haddr : (([p.ss, interrupted.rsp, interrupted.rflags, p.cs, interrupted.rip] ++
        rest).foldl push (p.mem, top)).2 + handler.errorCodeSize = top - 40 := by omega
    have hat (index : ℕ) (hindex : index < 5) (addr : ℕ) (haddr : addr + 8 * (index + 1) = top) :
        (([p.ss, interrupted.rsp, interrupted.rflags, p.cs, interrupted.rip] ++
          rest).foldl push (p.mem, top)).1.load addr 8 =
          [p.ss, interrupted.rsp, interrupted.rflags, p.cs, interrupted.rip][index] := by
      obtain rfl : top - 8 * (index + 1) = addr := by omega
      rw [hwords index (by omega), List.getElem_append_left]
    rw [haddr, InterruptStackFrame.read, hat 4 (by decide) (top - 40) (by omega),
      hat 3 (by decide) (top - 40 + 8) (by omega), hat 2 (by decide) (top - 40 + 16) (by omega),
      hat 1 (by decide) (top - 40 + 24) (by omega), hat 0 (by decide) (top - 40 + 32) (by omega)]
    rfl
  case kept =>
    dsimp only
    rw [hrsp, ← hlength]
    exact hkept

end Delivery

/-- What is delivered for a vector. -/
def Delivers (statics : Statics) (address : Handler → UInt64) (p : Processor)
    (stackFault : ℕ → Option Exception) (vector errorCode : ℕ) (interrupted : Interrupted) : Prop :=
  match gateOf vector with
  | none => p.deliver stackFault vector errorCode interrupted = .error .generalProtection
  | some (handler, ist) =>
    match stackFault (gateTop statics ist interrupted) with
    | some fault => p.deliver stackFault vector errorCode interrupted = .error fault
    | none => ∃ entered, p.deliver stackFault vector errorCode interrupted = .ok entered ∧
        Enters address p interrupted handler (gateTop statics ist interrupted) entered

/-- The memory still holds the tables. -/
structure HoldsTables (statics : Statics) (q : Processor) (m : Mem) : Prop where
  gdt : Mem.AgreeOn m q.mem statics.gdt (8 * GDT_ENTRIES)
  tss : Mem.AgreeOn m q.mem statics.tss TSS_SIZE
  idt : Mem.AgreeOn m q.mem statics.idt IDT_SIZE

/-- The tables in low memory. -/
def sampleStatics : Statics where
  faultStack := 0x10000
  tss := 0x20000
  gdt := 0x21000
  idt := 0x22000
  pointer := 0x24000
  stack_aligned := by decide
  stack_below := by decide
  tss_below := by decide
  gdt_below := by decide
  idt_below := by decide
  apart := by
    simp [Span.Apart, Span.stop, FAULT_STACK_SIZE, TSS_SIZE, GDT_ENTRIES, IDT_SIZE, POINTER_SIZE]

/-- A processor with an empty memory. -/
def sampleProcessor : Processor :=
  ⟨fun _ ↦ 0, ⟨0, 0⟩, ⟨0, 0⟩, ⟨0, 0, 0⟩, 0, 0, 0, 0⟩

theorem load_sampleProcessor (addr width : ℕ) : sampleProcessor.mem.load addr width = 0 := by
  induction width generalizing addr with
  | zero => rfl
  | succ width ih => rw [Mem.load, ih]; rfl

section Later

variable {statics : Statics} {address : Handler → UInt64} {p q : Processor} {m : Mem}

/-- The tables stay installed while the memory holds them. -/
theorem Installed.later (h : Installed statics address q) (hholds : HoldsTables statics q m) :
    Installed statics address { q with mem := m } := by
  have hgdt : 8 * GDT_ENTRIES = 40 := rfl
  have htss : TSS_SIZE = 104 := rfl
  have hidt : IDT_SIZE = 4096 := rfl
  refine { h with code_eq := ?_, stack_eq := ?_, gate_eq := fun vector hvector ↦ ?_ }
  · rw [← h.code_eq]
    exact Mem.load_congr (hholds.gdt.mono (by omega) (by omega))
  · rw [← h.stack_eq]
    exact Mem.load_congr (hholds.tss.mono (by omega) (by omega))
  · rw [← h.gate_eq vector hvector]
    exact Mem.load_congr (hholds.idt.mono (by omega) (by omega))

end Later

/-! ### Faults of a delivery -/

/-- The vector whose handler is reached, when the interrupted stack takes a frame or not. -/
def landing (vector : ℕ) (fault : Option Exception) : ℕ :=
  if vector = 8 ∨ fault.isSome then 8
  else if (gateOf vector).isSome then vector
  else if severity vector = .benign then 13
  else 8

section Faults

variable {statics : Statics} {address : Handler → UInt64} {p : Processor}
  {stackFault : ℕ → Option Exception} {errorCode : ℕ → ℕ} {interrupted : Interrupted}

/-- A handler has been reached. -/
def Reaches (statics : Statics) (address : Handler → UInt64) (p : Processor)
    (interrupted : Interrupted) (vector : ℕ) (raised : Raised) : Prop :=
  ∃ handler ist entered, gateOf vector = some (handler, ist) ∧ raised = .handled vector entered ∧
    Enters address p interrupted handler (gateTop statics ist interrupted) entered

/-- The only vector whose faults shut the processor down is the double fault. -/
theorem severity_ne_doubleFault {vector : ℕ} (hne : vector ≠ 8) :
    severity vector ≠ .doubleFault := by
  unfold severity
  rw [if_neg hne]
  split_ifs <;> decide

theorem raise_enters (h : Installed statics address p) (hsound : Sound stackFault interrupted)
    (hcode : ∀ vector, errorCode vector < 2 ^ 64) {vector : ℕ} (hvector : vector < 256)
    {handler : Handler} {ist : ℕ} (hgate : gateOf vector = some (handler, ist))
    (hfault : stackFault (gateTop statics ist interrupted) = none) (deliveries : ℕ) :
    Reaches statics address p interrupted vector
      (p.raise stackFault errorCode interrupted (deliveries + 1) vector) := by
  obtain ⟨entered, hok, henters⟩ := deliver_enters h hvector hgate hsound (hcode vector) hfault
  refine ⟨handler, ist, entered, hgate, ?_, henters⟩
  rw [raise, hok]

theorem raise_escalates {vector : ℕ} {fault : Exception} {next : ℕ}
    (hfault : p.deliver stackFault vector (errorCode vector) interrupted = .error fault)
    (hnext : escalate vector fault = some next) (deliveries : ℕ) :
    p.raise stackFault errorCode interrupted (deliveries + 1) vector =
      p.raise stackFault errorCode interrupted deliveries next := by
  rw [raise, hfault]
  dsimp only
  rw [hnext]

/-- The double fault is always delivered. -/
theorem raise_doubleFault (h : Installed statics address p) (hsound : Sound stackFault interrupted)
    (hcode : ∀ vector, errorCode vector < 2 ^ 64) (hstack : stackFault statics.stackTop = none)
    (deliveries : ℕ) : Reaches statics address p interrupted 8
      (p.raise stackFault errorCode interrupted (deliveries + 1) 8) :=
  raise_enters h hsound hcode (by decide) (rfl : gateOf 8 = some (.doubleFault, 1)) hstack
    deliveries

/-- On a stack that does not take a frame every delivery but that of the double fault faults. -/
theorem deliver_error (h : Installed statics address p) {fault : Exception}
    (hfault : stackFault (interrupted.rsp / 16 * 16) = some fault) (errorCode : ℕ → ℕ) (vector : ℕ)
    (hvector : vector < 256) (hne : vector ≠ 8) :
    ∃ fault, p.deliver stackFault vector (errorCode vector) interrupted = .error fault := by
  cases hgate : gateOf vector with
  | none => exact ⟨_, deliver_missing h hvector hgate⟩
  | some gate =>
    have hist := (gateOf_cases vector hvector _ hgate).2
    rw [if_neg hne] at hist
    refine ⟨fault, deliver_faults h hvector hgate ?_⟩
    rw [hist]
    exact hfault

/-- On such a stack the faults of a fault end with the double fault. -/
theorem raise_fault (h : Installed statics address p) (hsound : Sound stackFault interrupted)
    (hcode : ∀ vector, errorCode vector < 2 ^ 64) (hstack : stackFault statics.stackTop = none)
    {fault : Exception} (hfault : stackFault (interrupted.rsp / 16 * 16) = some fault)
    (deliveries : ℕ) (first : Exception) : Reaches statics address p interrupted 8
      (p.raise stackFault errorCode interrupted (deliveries + 3) first.vector) := by
  have hdouble := raise_doubleFault h hsound hcode hstack
  -- A page fault is followed by a double fault.
  have hpage (deliveries : ℕ) : Reaches statics address p interrupted 8
      (p.raise stackFault errorCode interrupted (deliveries + 2) 14) := by
    obtain ⟨second, hsecond⟩ := deliver_error h hfault errorCode 14 (by decide) (by decide)
    rw [raise_escalates hsecond rfl]
    exact hdouble deliveries
  obtain ⟨second, hsecond⟩ := deliver_error h hfault errorCode first.vector
    (by cases first <;> decide) (by cases first <;> decide)
  by_cases hkind : first = .pageFault
  · rw [hkind]
    exact hpage (deliveries + 1)
  · have hnext : escalate first.vector second = some (if second = .pageFault then 14 else 8) := by
      cases first <;> first | rfl | exact absurd rfl hkind
    rw [raise_escalates hsecond hnext]
    split_ifs
    · exact hpage deliveries
    · exact hdouble (deliveries + 1)

/-- Some handler is reached for every vector, whatever stack was interrupted, as long as the stack
of the double fault takes a frame: the processor does not shut down. -/
theorem raise_reaches (h : Installed statics address p) (hsound : Sound stackFault interrupted)
    (hcode : ∀ vector, errorCode vector < 2 ^ 64) (hstack : stackFault statics.stackTop = none)
    {vector : ℕ} (hvector : vector < 256) (deliveries : ℕ) :
    Reaches statics address p interrupted
      (landing vector (stackFault (interrupted.rsp / 16 * 16)))
      (p.raise stackFault errorCode interrupted (deliveries + 4) vector) := by
  have hdouble := raise_doubleFault h hsound hcode hstack
  by_cases height : vector = 8
  · rw [landing, if_pos (.inl height), height]
    exact hdouble (deliveries + 3)
  cases hfault : stackFault (interrupted.rsp / 16 * 16) with
  | some fault =>
    rw [landing, if_pos (.inr rfl)]
    obtain ⟨first, hfirst⟩ := deliver_error h hfault errorCode vector hvector height
    have hnext : escalate vector first = some first.vector ∨ escalate vector first = some 14 ∨
        escalate vector first = some 8 := by
      rw [escalate]
      cases hseverity : severity vector with
      | benign => exact .inl rfl
      | contributory =>
        dsimp only
        split_ifs
        · exact .inr (.inl rfl)
        · exact .inr (.inr rfl)
      | pageFault => exact .inr (.inr rfl)
      | doubleFault => exact absurd hseverity (severity_ne_doubleFault height)
    rcases hnext with hnext | hnext | hnext
    · rw [raise_escalates hfirst hnext]
      exact raise_fault h hsound hcode hstack hfault deliveries first
    · rw [raise_escalates hfirst hnext]
      exact raise_fault h hsound hcode hstack hfault deliveries .pageFault
    · rw [raise_escalates hfirst hnext]
      exact hdouble (deliveries + 2)
  | none =>
    rw [landing, if_neg (by simp [height])]
    cases hgate : gateOf vector with
    | some gate =>
      have hist := (gateOf_cases vector hvector _ hgate).2
      rw [if_neg height] at hist
      rw [if_pos Option.isSome_some]
      refine raise_enters h hsound hcode hvector hgate ?_ (deliveries + 3)
      rw [hist]
      exact hfault
    | none =>
      have hmissing : p.deliver stackFault vector (errorCode vector) interrupted =
          .error .generalProtection := deliver_missing h hvector hgate
      rw [if_neg (by decide)]
      cases hseverity : severity vector with
      | benign =>
        have hnext : escalate vector .generalProtection = some 13 := by
          rw [escalate, hseverity]
          rfl
        rw [raise_escalates hmissing hnext, if_pos rfl]
        exact raise_enters h hsound hcode (by decide)
          (rfl : gateOf 13 = some (.generalProtection, 0)) hfault (deliveries + 2)
      | contributory =>
        have hnext : escalate vector .generalProtection = some 8 := by rw [escalate, hseverity]; rfl
        rw [raise_escalates hmissing hnext, if_neg (by decide)]
        exact hdouble (deliveries + 2)
      | pageFault =>
        have hnext : escalate vector .generalProtection = some 8 := by rw [escalate, hseverity]
        rw [raise_escalates hmissing hnext, if_neg (by decide)]
        exact hdouble (deliveries + 2)
      | doubleFault => exact absurd hseverity (severity_ne_doubleFault height)

end Faults

/-- Once the tables have been initialised, every vector below 256 reaches the handler that `landing`
names within four deliveries, in every memory that still holds the tables, as long as the stack of
the double fault takes a frame. The double fault runs in `fault_stack_range`. -/
theorem init_reaches (statics : Statics) (address : Handler → UInt64) (p : Processor)
    (hempty : ∀ vector < 256, p.mem.load (statics.idt + 16 * vector) 16 = 0) :
    ∃ p' q, Gdt.init statics p = .ok p' ∧ init statics address p' = .ok q ∧
      ∀ m, HoldsTables statics q m → ∀ stackFault interrupted, Sound stackFault interrupted →
        stackFault statics.stackTop = none →
        ∀ errorCode : ℕ → ℕ, (∀ vector, errorCode vector < 2 ^ 64) →
        ∀ vector < 256, ∀ deliveries ≥ 4, ∃ handler ist entered,
          gateOf (landing vector (stackFault (interrupted.rsp / 16 * 16))) = some (handler, ist) ∧
          raise { q with mem := m } stackFault errorCode interrupted deliveries vector =
            .handled (landing vector (stackFault (interrupted.rsp / 16 * 16))) entered ∧
          Enters address { q with mem := m } interrupted handler
            (gateTop statics ist interrupted) entered ∧
          (handler = .doubleFault → (faultStackRange statics).1 ≤ entered.rsp ∧
            entered.rsp < (faultStackRange statics).2) := by
  obtain ⟨p', hgdt, -⟩ := Gdt.init_loads statics p
  obtain ⟨q, hidt, hinstalled⟩ := init_installs statics address hgdt hempty
  refine ⟨p', q, hgdt, hidt, fun m hholds stackFault interrupted hsound hstack errorCode hcode
    vector hvector deliveries hdeliveries ↦ ?_⟩
  obtain ⟨more, rfl⟩ := Nat.exists_eq_add_of_le' hdeliveries
  obtain ⟨handler, ist, entered, hgate, hraise, henters⟩ :=
    raise_reaches (hinstalled.later hholds) hsound hcode hstack hvector more
  refine ⟨handler, ist, entered, hgate, hraise, henters, fun hdouble ↦ ?_⟩
  rw [hdouble] at hgate henters
  have hist := gateOf_doubleFault hgate
  have hrsp := henters.rsp_eq
  have hsize : FAULT_STACK_SIZE = 16384 := rfl
  rw [hist, gateTop, if_neg (by decide), Statics.stackTop] at hrsp
  have herror : Handler.errorCodeSize .doubleFault = 8 := rfl
  rw [faultStackRange]
  exact ⟨by dsimp only; omega, by dsimp only; omega⟩

/-- Code that has run out of its stack ends in the handler of the double fault. -/
theorem init_reaches_exhausted : ∃ q entered,
    raise q (fun top ↦ if top < 0x10000 then some .pageFault else none) (fun _ ↦ 0)
      ⟨0x1234, 0x202, 0x9000⟩ 4 14 = .handled 8 entered := by
  obtain ⟨p', q, -, -, hreaches⟩ := init_reaches sampleStatics (fun _ ↦ 0x5000)
    sampleProcessor fun _ _ ↦ load_sampleProcessor _ _
  have hsound : Sound (fun top ↦ if top < 0x10000 then some .pageFault else none)
      ⟨0x1234, 0x202, 0x9000⟩ := by
    refine ⟨by decide, by decide, by decide, fun top htop ↦ ?_⟩
    by_contra hlow
    rw [if_pos (by omega)] at htop
    cases htop
  obtain ⟨handler, ist, entered, -, hraise, -⟩ := hreaches q.mem
    ⟨.refl _ _ _, .refl _ _ _, .refl _ _ _⟩ _ _ hsound (if_neg (by decide)) (fun _ ↦ 0)
    (fun _ ↦ by decide) 14 (by decide) 4 le_rfl
  exact ⟨q, entered, hraise⟩

end Idt

end RustBL
