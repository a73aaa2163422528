import RustBL.Kernel.Interrupts.Machine

/-!
# `without_interrupts` is a critical section

Once the interrupt flag is clear nothing sets it before the code that runs has ended: an inner
section saved a clear flag, and restores it. `Masked` describes the code, the stack and the saved
flags of a thread that runs with interrupts off, and `Masked.advance` is its step: the flag stays
clear, and the instruction is one the thread would execute alone.

`Tracks` is the invariant of whole runs of the processor, against a run in which every section and
every handler is one step. Either the program is between its sections and its flag is the initial
one, or it is inside a section, or a handler interrupted it between two sections. In the last two
cases the flag is clear, so no handler is entered, and what was done since the last step of the
other run was done by that section or that handler alone.
-/

set_option autoImplicit false
set_option relaxedAutoImplicit false

namespace RustBL

section Threads

variable {ρ σ ι : Type}

/-! ### The body of a section -/

/-- `if was_enabled { cli }`. -/
def Item.opens : Item ρ σ → Bool
  | .cliIfEnabled => true
  | _ => false

/-- `if was_enabled { sti }`. -/
def Item.closes : Item ρ σ → Bool
  | .stiIfEnabled => true
  | _ => false

/-- The thread is between the first and the last step of the body of some section: a section ends
ahead that does not begin there. -/
def Context.InBody (context : Context ρ σ) : Prop :=
  context.code.countP Item.opens < context.code.countP Item.closes

@[simp] theorem countP_opens_programs (programs : List (Program ρ σ)) :
    (programs.map Item.run).countP Item.opens = 0 := by
  rw [List.countP_eq_zero]
  intro item hitem
  obtain ⟨program, _, rfl⟩ := List.mem_map.mp hitem
  exact Bool.false_ne_true

@[simp] theorem countP_closes_programs (programs : List (Program ρ σ)) :
    (programs.map Item.run).countP Item.closes = 0 := by
  rw [List.countP_eq_zero]
  intro item hitem
  obtain ⟨program, _, rfl⟩ := List.mem_map.mp hitem
  exact Bool.false_ne_true

/-! ### Threads that run with interrupts off -/

/-- Code between two instructions of `without_interrupts`: programs, inside sections that found the
flag clear. -/
inductive Closing : List (Item ρ σ) → List Bool → Prop
  | outside (programs : List (Program ρ σ)) : Closing (programs.map .run) []
  | inside (programs : List (Program ρ σ)) {code : List (Item ρ σ)} {wasEnabled : List Bool}
      (h : Closing code wasEnabled) :
      Closing (programs.map .run ++ .stiIfEnabled :: code) (false :: wasEnabled)

/-- The code, the stack and the saved flags of a thread that runs with the interrupt flag clear. -/
inductive Masked : List (Item ρ σ) → List Flags → List Bool → Prop
  | settled {code : List (Item ρ σ)} {wasEnabled : List Bool} (h : Closing code wasEnabled) :
      Masked code [] wasEnabled
  | entered (body : Program ρ σ) {code : List (Item ρ σ)} {wasEnabled : List Bool}
      (h : Closing code wasEnabled) :
      Masked (.pushfq :: .popFlags :: .cliIfEnabled :: .run body :: .stiIfEnabled :: code) []
        wasEnabled
  | pushed (body : Program ρ σ) {code : List (Item ρ σ)} {wasEnabled : List Bool} {flags : Flags}
      (h : Closing code wasEnabled) (hflags : isEnabled flags = false) :
      Masked (.popFlags :: .cliIfEnabled :: .run body :: .stiIfEnabled :: code) [flags] wasEnabled
  | popped (body : Program ρ σ) {code : List (Item ρ σ)} {wasEnabled : List Bool}
      (h : Closing code wasEnabled) :
      Masked (.cliIfEnabled :: .run body :: .stiIfEnabled :: code) [] (false :: wasEnabled)

section Masked

variable {code : List (Item ρ σ)} {stack : List Flags} {wasEnabled : List Bool}

theorem Closing.prepend (h : Closing code wasEnabled) (programs : List (Program ρ σ)) :
    Closing (programs.map .run ++ code) wasEnabled := by
  cases h with
  | outside later =>
    rw [← List.map_append]
    exact .outside _
  | inside later h =>
    rw [← List.append_assoc, ← List.map_append]
    exact .inside _ h

/-- The next item is a program or the end of a section that found the flag clear. -/
theorem Closing.cases_head (h : Closing code wasEnabled) : code = [] ∨
    (∃ program rest, code = .run program :: rest ∧ Closing rest wasEnabled) ∨
    ∃ rest outer, code = .stiIfEnabled :: rest ∧ wasEnabled = false :: outer ∧
      Closing rest outer := by
  cases h with
  | outside programs =>
    cases programs with
    | nil => exact Or.inl rfl
    | cons program programs => exact Or.inr (Or.inl ⟨program, _, rfl, .outside programs⟩)
  | inside programs h =>
    cases programs with
    | nil => exact Or.inr (Or.inr ⟨_, _, rfl, rfl, h⟩)
    | cons program programs => exact Or.inr (Or.inl ⟨program, _, rfl, .inside programs h⟩)

theorem Closing.opens_eq_zero (h : Closing code wasEnabled) : code.countP Item.opens = 0 := by
  induction h with
  | outside programs => exact countP_opens_programs programs
  | inside programs h ih => simpa [Item.opens] using ih

/-- Every section that begins ahead also ends ahead. -/
theorem Masked.count_le (h : Masked code stack wasEnabled) :
    code.countP Item.opens ≤ code.countP Item.closes := by
  cases h with
  | settled h => simp [h.opens_eq_zero]
  | entered body h => simp [List.countP_cons, Item.opens, Item.closes, h.opens_eq_zero]
  | pushed body h _ => simp [List.countP_cons, Item.opens, Item.closes, h.opens_eq_zero]
  | popped body h => simp [List.countP_cons, Item.opens, Item.closes, h.opens_eq_zero]

/-- A program that is no section unfolds to programs. -/
theorem Program.unfold_cases (program : Program ρ σ) (regs : ρ) (shared : σ) :
    (∃ programs : List (Program ρ σ), ∃ regs' shared',
      program.unfold regs shared = (programs.map .run, regs', shared')) ∨
    ∃ body, program = .withoutInterrupts body := by
  cases program with
  | step effect => exact Or.inl ⟨[], _, _, rfl⟩
  | seq first second => exact Or.inl ⟨[first, second], _, _, rfl⟩
  | branch cond yes no => exact Or.inl ⟨[if cond regs then yes else no], _, _, rfl⟩
  | loop cond body =>
    refine Or.inl ⟨if cond regs then [body, .loop cond body] else [], regs, shared, ?_⟩
    rw [Program.unfold]
    split <;> rfl
  | withoutInterrupts body => exact Or.inr ⟨body, rfl⟩

/-- One instruction of a thread that runs with the flag clear: the flag stays clear, and the thread
would execute the same instruction alone. -/
theorem Masked.advance (h : Masked code stack wasEnabled) (hcode : code ≠ []) {flags : Flags}
    (hflags : isEnabled flags = false) (regs : ρ) (shared : σ) :
    ∃ code' stack' wasEnabled' regs' shared',
      Context.advance flags shared ⟨regs, code, stack, wasEnabled⟩ =
        some (flags, shared', ⟨regs', code', stack', wasEnabled'⟩) ∧
      soloStep (code, regs, shared) = some (code', regs', shared') ∧
      Masked code' stack' wasEnabled' := by
  cases h with
  | settled h =>
    rcases h.cases_head with rfl | ⟨program, rest, rfl, hrest⟩ | ⟨rest, outer, rfl, rfl, hrest⟩
    · exact absurd rfl hcode
    · rcases program.unfold_cases regs shared with
        ⟨programs, regs', shared', hunfold⟩ | ⟨body, rfl⟩
      · refine ⟨_, [], wasEnabled, regs', shared', ?_, ?_, .settled (hrest.prepend programs)⟩
        · simp only [Context.advance, hunfold]
        · simp only [soloStep, hunfold]
      · exact ⟨_, [], wasEnabled, regs, shared, rfl, rfl, .entered body hrest⟩
    · exact ⟨rest, [], outer, regs, shared, rfl, rfl, .settled hrest⟩
  | entered body h => exact ⟨_, [flags], wasEnabled, regs, shared, rfl, rfl, .pushed body h hflags⟩
  | pushed body h hsaved =>
    rename_i saved
    refine ⟨_, [], false :: wasEnabled, regs, shared, ?_, rfl, .popped body h⟩
    simp only [Context.advance, hsaved]
  | popped body h =>
    rename_i rest outer
    exact ⟨_, [], false :: outer, regs, shared, rfl, rfl, .settled (.inside [body] h)⟩

/-- What a thread does at the front of its code does not depend on the code behind. -/
theorem Context.advance_append {flags flags' : Flags} {shared shared' : σ} {regs regs' : ρ}
    {code' : List (Item ρ σ)} {stack' : List Flags} {wasEnabled' : List Bool}
    (h : Context.advance flags shared ⟨regs, code, stack, wasEnabled⟩ =
      some (flags', shared', ⟨regs', code', stack', wasEnabled'⟩))
    (behind : List (Item ρ σ)) (outer : List Bool) :
    Context.advance flags shared ⟨regs, code ++ behind, stack, wasEnabled ++ outer⟩ =
      some (flags', shared', ⟨regs', code' ++ behind, stack', wasEnabled' ++ outer⟩) := by
  cases code with
  | nil => exact nomatch h
  | cons item code =>
    cases item with
    | run program =>
      simp only [Context.advance, List.cons_append] at h ⊢
      cases h
      rw [List.append_assoc]
    | pushfq =>
      cases h
      rfl
    | popFlags =>
      cases stack with
      | nil => exact nomatch h
      | cons saved stack =>
        cases h
        rfl
    | cliIfEnabled =>
      cases wasEnabled with
      | nil => exact nomatch h
      | cons was wasEnabled =>
        cases h
        rfl
    | stiIfEnabled =>
      cases wasEnabled with
      | nil => exact nomatch h
      | cons was wasEnabled =>
        cases h
        rfl

end Masked

/-! ### The processor against single steps -/

/-- The code, the stack and the saved flags of a program outside its sections, with the programs
that follow each other: before the flag is saved, or before it is cleared. -/
inductive Between (enabled : Bool) :
    List (Program ρ σ) → List (Item ρ σ) → List Flags → List Bool → Prop
  | settled (programs : List (Program ρ σ)) : Between enabled programs (programs.map .run) [] []
  | entered (body : Program ρ σ) (rest : List (Program ρ σ)) :
      Between enabled (.withoutInterrupts body :: rest)
        (.pushfq :: .popFlags :: .cliIfEnabled :: .run body :: .stiIfEnabled :: rest.map .run) [] []
  | pushed (body : Program ρ σ) (rest : List (Program ρ σ)) {flags : Flags}
      (hflags : isEnabled flags = enabled) :
      Between enabled (.withoutInterrupts body :: rest)
        (.popFlags :: .cliIfEnabled :: .run body :: .stiIfEnabled :: rest.map .run) [flags] []
  | popped (body : Program ρ σ) (rest : List (Program ρ σ)) :
      Between enabled (.withoutInterrupts body :: rest)
        (.cliIfEnabled :: .run body :: .stiIfEnabled :: rest.map .run) [] [enabled]

/-- The processor `s` against a state `A` of a run in which sections and handlers are single steps,
with the handler that is running. -/
inductive Tracks (handlers : ι → Program ρ σ) (A : AtomicState ρ σ) : Cpu ρ σ → Option ι → Prop
  /-- The program is between its sections. -/
  | between {flags : Flags} {code : List (Item ρ σ)} {stack : List Flags} {wasEnabled : List Bool}
      (hflags : isEnabled flags = A.enabled) (h : Between A.enabled A.code code stack wasEnabled) :
      Tracks handlers A ⟨flags, A.shared, ⟨A.regs, code, stack, wasEnabled⟩, []⟩ none
  /-- The program is inside a section. -/
  | inSection {flags : Flags} {shared : σ} {regs : ρ} {code : List (Item ρ σ)} {stack : List Flags}
      {wasEnabled : List Bool} {body : Program ρ σ} {rest : List (Program ρ σ)}
      (hcode : A.code = .withoutInterrupts body :: rest) (hflags : isEnabled flags = false)
      (h : Masked code stack wasEnabled)
      (hsolo : Solo ([.run body], A.regs, A.shared) (code, regs, shared)) :
      Tracks handlers A ⟨flags, shared, ⟨regs, code ++ .stiIfEnabled :: rest.map .run, stack,
        wasEnabled ++ [A.enabled]⟩, []⟩ none
  /-- A handler is running. -/
  | inHandler {flags saved : Flags} {shared : σ} {regs : ρ} {code code' : List (Item ρ σ)}
      {stack stack' : List Flags} {wasEnabled wasEnabled' : List Bool} {vector : ι}
      (henabled : A.enabled = true) (hsaved : isEnabled saved = true)
      (hbetween : Between A.enabled A.code code' stack' wasEnabled')
      (hflags : isEnabled flags = false) (h : Masked code stack wasEnabled)
      (hsolo : Solo ([.run (handlers vector)], A.regs, A.shared) (code, regs, shared)) :
      Tracks handlers A ⟨flags, shared, ⟨regs, code, stack, wasEnabled⟩,
        [(saved, ⟨A.regs, code', stack', wasEnabled'⟩)]⟩ (some vector)

/-- The interrupts among these events. -/
def interrupts (trace : List (Event ι × Unit)) : List ι :=
  trace.filterMap fun entry ↦
    match entry.1 with
    | .execute => none
    | .interrupt vector => some vector

theorem interrupts_append (trace later : List (Event ι × Unit)) :
    interrupts (trace ++ later) = interrupts trace ++ interrupts later :=
  List.filterMap_append

section Tracks

variable {handlers : ι → Program ρ σ} {A : AtomicState ρ σ} {s next : Cpu ρ σ} {current : Option ι}

/-- A program between its sections executes an instruction: it is a single step, or on its way into
a section, or the first step of one. -/
theorem Between.execute (handlers : ι → Program ρ σ) {flags : Flags}
    {code : List (Item ρ σ)} {stack : List Flags} {wasEnabled : List Bool}
    (hflags : isEnabled flags = A.enabled)
    (h : Between A.enabled A.code code stack wasEnabled) (hcode : code ≠ []) :
    ∃ flags' shared' context', Context.advance flags A.shared ⟨A.regs, code, stack, wasEnabled⟩ =
        some (flags', shared', context') ∧
      ((∃ A', AtomicStep handlers A .execute A' ∧
          Tracks handlers A' ⟨flags', shared', context', []⟩ none) ∨
        Tracks handlers A ⟨flags', shared', context', []⟩ none) := by
  obtain ⟨enabled, regs, shared, programs⟩ := A
  cases h with
  | settled =>
    cases programs with
    | nil => exact absurd rfl hcode
    | cons program rest =>
      rcases program.unfold_cases regs shared with
        ⟨programs, regs', shared', hunfold⟩ | ⟨body, rfl⟩
      · refine ⟨flags, shared', ⟨regs', (programs ++ rest).map .run, [], []⟩, ?_,
          Or.inl ⟨_, .plain hunfold, .between hflags (.settled _)⟩⟩
        rw [List.map_append]
        simp only [Context.advance, List.map_cons, hunfold]
      · exact ⟨flags, shared, _, rfl, Or.inr (.between hflags (.entered body rest))⟩
  | entered body rest =>
    exact ⟨flags, shared, _, rfl, Or.inr (.between hflags (.pushed body rest hflags))⟩
  | pushed body rest hsaved =>
    rename_i saved
    refine ⟨flags, shared, ⟨regs, _, [], [enabled]⟩, ?_,
      Or.inr (.between hflags (.popped body rest))⟩
    simp only [Context.advance, hsaved]
  | popped body rest =>
    have hclear : isEnabled (if enabled then cli flags else flags) = false := by
      cases enabled with
      | false => exact hflags
      | true => exact isEnabled_cli flags
    exact ⟨_, shared, ⟨regs, [.run body] ++ .stiIfEnabled :: rest.map .run, [], [] ++ [enabled]⟩,
      rfl, Or.inr (.inSection rfl hclear (.settled (.outside [body])) .refl)⟩

/-- Over an event that takes the processor to `next`, the run in which sections and handlers are
single steps has made one step or none. The interrupts that arrived are those that were served and
the one whose handler is running. -/
def Follows (handlers : ι → Program ρ σ) (A : AtomicState ρ σ) (current : Option ι)
    (event : Event ι) (next : Cpu ρ σ) : Prop :=
  ∃ order A' current', (atomicMachine handlers).Run A order A' ∧ Tracks handlers A' next current' ∧
    current.toList ++ interrupts [(event, ())] = interrupts order ++ current'.toList

/-- The processor executes without a step of the other run. -/
theorem Tracks.follows (h : Tracks handlers A next current) :
    Follows handlers A current .execute next :=
  ⟨[], A, current, .nil, h, List.append_nil _⟩

/-- The processor executes and the other run makes one step. -/
theorem AtomicStep.follows {A' : AtomicState ρ σ} {event : Event ι}
    (hatomic : AtomicStep handlers A event A') (h : Tracks handlers A' next none)
    (hserved : current.toList = interrupts [(event, ())]) :
    Follows handlers A current .execute next :=
  ⟨[(event, ())], A', none, .snoc .nil hatomic, h, congrArg (· ++ []) hserved⟩

/-- Between its sections the program executes, or a handler is entered. -/
theorem Between.follows {flags : Flags} {code : List (Item ρ σ)} {stack : List Flags}
    {wasEnabled : List Bool} (hflags : isEnabled flags = A.enabled)
    (h : Between A.enabled A.code code stack wasEnabled) {event : Event ι}
    (hstep : Cpu.step handlers ⟨flags, A.shared, ⟨A.regs, code, stack, wasEnabled⟩, []⟩ event =
      some next) : Follows handlers A none event next := by
  cases event with
  | execute =>
    cases code with
    | nil => exact nomatch hstep
    | cons item code =>
      obtain ⟨flags', shared', context', hadvance, hcases⟩ :=
        h.execute handlers hflags (List.cons_ne_nil _ _)
      simp only [Cpu.step, hadvance, Option.map_some, Option.some.injEq] at hstep
      subst hstep
      rcases hcases with ⟨A', hatomic, htracks⟩ | htracks
      · exact hatomic.follows htracks rfl
      · exact htracks.follows
  | interrupt vector =>
    simp only [Cpu.step] at hstep
    split_ifs at hstep with henabled
    obtain rfl := Option.some.inj hstep
    have hon : A.enabled = true := hflags.symm.trans henabled
    exact ⟨[], A, some vector, .nil, .inHandler hon henabled h (isEnabled_cli flags)
      (.settled (.outside [handlers vector])) .refl, rfl⟩

/-- With nothing left to execute a program is outside its sections. -/
theorem Masked.wasEnabled_eq_nil {stack : List Flags} {wasEnabled : List Bool}
    (h : Masked ([] : List (Item ρ σ)) stack wasEnabled) : wasEnabled = [] := by
  cases h with
  | settled hclosing =>
    generalize hnil : ([] : List (Item ρ σ)) = code at hclosing
    cases hclosing with
    | outside programs => rfl
    | inside programs _ => exact absurd hnil (by simp)

/-- At the end of a section the flag is as it was before, and the section is a single step. -/
theorem Solo.section_follows {flags : Flags} {shared : σ} {regs : ρ} {stack : List Flags}
    {wasEnabled : List Bool} {body : Program ρ σ} {rest : List (Program ρ σ)}
    (hcode : A.code = .withoutInterrupts body :: rest) (hflags : isEnabled flags = false)
    (h : Masked ([] : List (Item ρ σ)) stack wasEnabled)
    (hsolo : Solo ([.run body], A.regs, A.shared) ([], regs, shared))
    (hstep : Cpu.step handlers ⟨flags, shared, ⟨regs, .stiIfEnabled :: rest.map .run, stack,
      wasEnabled ++ [A.enabled]⟩, []⟩ .execute = some next) :
    Follows handlers A none .execute next := by
  obtain rfl := h.wasEnabled_eq_nil
  obtain ⟨enabled, regs₀, shared₀, programs⟩ := A
  obtain rfl : programs = .withoutInterrupts body :: rest := hcode
  have hflag : isEnabled (if enabled then sti flags else flags) = enabled := by
    cases enabled with
    | false => exact hflags
    | true => exact isEnabled_sti flags
  cases h with
  | settled _ =>
    obtain rfl := Option.some.inj hstep
    have hatomic : AtomicStep handlers
        ⟨enabled, regs₀, shared₀, .withoutInterrupts body :: rest⟩ .execute
        ⟨enabled, regs, shared, rest⟩ := .critical hsolo
    exact hatomic.follows (.between hflag (.settled rest)) rfl

/-- One step of the processor is followed by the run in which sections and handlers are single
steps. -/
theorem Tracks.step (h : Tracks handlers A s current) {event : Event ι}
    (hstep : s.step handlers event = some next) : Follows handlers A current event next := by
  cases h with
  | between hflags h => exact h.follows hflags hstep
  | inSection hcode hflags h hsolo =>
    rename_i flags shared regs code stack wasEnabled body rest
    cases event with
    | interrupt vector =>
      simp only [Cpu.step, hflags] at hstep
      exact nomatch hstep
    | execute =>
      by_cases hend : code = []
      · subst hend
        exact hsolo.section_follows hcode hflags h hstep
      · obtain ⟨code', stack', wasEnabled', regs', shared', hadvance, hsoloStep, hmasked⟩ :=
          h.advance hend hflags regs shared
        have hall := Context.advance_append hadvance (.stiIfEnabled :: rest.map .run) [A.enabled]
        obtain ⟨item, later, rfl⟩ := List.exists_cons_of_ne_nil hend
        simp only [Cpu.step, List.cons_append] at hstep hall
        rw [hall] at hstep
        obtain rfl := Option.some.inj hstep
        have hafter : Tracks handlers A ⟨_, shared', ⟨regs', code' ++ .stiIfEnabled ::
            rest.map .run, stack', wasEnabled' ++ [A.enabled]⟩, []⟩ none :=
          .inSection hcode hflags hmasked (hsolo.tail hsoloStep)
        exact hafter.follows
  | inHandler henabled hsaved hbetween hflags h hsolo =>
    rename_i flags saved shared regs code code' stack stack' wasEnabled wasEnabled' vector
    cases event with
    | interrupt vector =>
      simp only [Cpu.step, hflags] at hstep
      exact nomatch hstep
    | execute =>
      by_cases hend : code = []
      · -- The handler returns.
        subst hend
        obtain rfl := Option.some.inj hstep
        obtain ⟨enabled, regs₀, shared₀, programs⟩ := A
        obtain rfl : enabled = true := henabled
        have hatomic : AtomicStep handlers ⟨true, regs₀, shared₀, programs⟩ (.interrupt vector)
            ⟨true, regs₀, shared, programs⟩ := .handler hsolo
        exact hatomic.follows (.between hsaved hbetween) rfl
      · obtain ⟨code'', stack'', wasEnabled'', regs', shared', hadvance, hsoloStep, hmasked⟩ :=
          h.advance hend hflags regs shared
        obtain ⟨item, later, rfl⟩ := List.exists_cons_of_ne_nil hend
        simp only [Cpu.step, hadvance, Option.map_some, Option.some.injEq] at hstep
        subst hstep
        have hafter : Tracks handlers A ⟨_, shared', ⟨regs', code'', stack'', wasEnabled''⟩,
            [(saved, ⟨A.regs, code', stack', wasEnabled'⟩)]⟩ (some vector) :=
          .inHandler henabled hsaved hbetween hflags hmasked (hsolo.tail hsoloStep)
        exact hafter.follows

/-- A run of the processor is a run in which sections and handlers are single steps, and the part of
a step that was done since. -/
theorem Tracks.run (h : Tracks handlers A s current) {trace : List (Event ι × Unit)}
    (hrun : (cpuMachine handlers).Run s trace next) : ∃ order A' current',
      (atomicMachine handlers).Run A order A' ∧ Tracks handlers A' next current' ∧
      current.toList ++ interrupts trace = interrupts order ++ current'.toList := by
  induction hrun with
  | nil => exact ⟨[], A, current, .nil, h, by simp [interrupts]⟩
  | snoc _ hstep ih =>
    obtain ⟨order, middle, served, hatomic, htracks, hserved⟩ := ih
    obtain ⟨order', last, served', hatomic', htracks', hserved'⟩ := htracks.step hstep
    refine ⟨order ++ order', last, served', hatomic.append hatomic', htracks', ?_⟩
    rw [interrupts_append, interrupts_append, ← List.append_assoc, hserved, List.append_assoc,
      hserved', List.append_assoc]

theorem tracks_start (handlers : ι → Program ρ σ) (program : Program ρ σ) (rflags : Flags)
    (regs : ρ) (shared : σ) : Tracks handlers (.start program rflags regs shared)
      (.start program rflags regs shared) none :=
  .between rfl (.settled [program])

/-- Single steps leave the flag between them as it is. -/
theorem atomic_run_enabled {B : AtomicState ρ σ} {order : List (Event ι × Unit)}
    (hrun : (atomicMachine handlers).Run A order B) : B.enabled = A.enabled := by
  refine hrun.invariant (fun B ↦ B.enabled = A.enabled) (fun B event _ C henabled hstep ↦ ?_) rfl
  cases hstep <;> exact henabled

/-! ### What the flag says -/

theorem Between.not_inBody {enabled : Bool} {programs : List (Program ρ σ)} {regs : ρ}
    {code : List (Item ρ σ)} {stack : List Flags} {wasEnabled : List Bool}
    (h : Between enabled programs code stack wasEnabled) :
    ¬ Context.InBody ⟨regs, code, stack, wasEnabled⟩ := by
  cases h <;>
    simp [-List.countP_map, Context.InBody, List.countP_cons, Item.opens, Item.closes]

/-- Inside the body of a section, and in a handler, the flag is clear; elsewhere it is what it was
at the start. -/
theorem Tracks.flag_eq (h : Tracks handlers A s current) :
    (s.running.InBody ∨ s.interrupted ≠ [] → isEnabled s.rflags = false) ∧
      (¬ s.running.InBody → s.interrupted = [] → isEnabled s.rflags = A.enabled) := by
  cases h with
  | between hflags h =>
    refine ⟨fun hin ↦ ?_, fun _ _ ↦ hflags⟩
    rcases hin with hbody | hout
    · exact absurd hbody h.not_inBody
    · exact absurd rfl hout
  | inSection hcode hflags h hsolo =>
    refine ⟨fun _ ↦ hflags, fun hout _ ↦ absurd ?_ hout⟩
    have hle := h.count_le
    simp only [Context.InBody, List.countP_append, List.countP_cons, countP_opens_programs,
      countP_closes_programs, Item.opens, Item.closes]
    simp only [Bool.false_eq_true, if_false, if_true]
    omega
  | inHandler henabled hsaved hbetween hflags h hsolo =>
    exact ⟨fun _ ↦ hflags, fun _ hnil ↦ absurd hnil (List.cons_ne_nil _ _)⟩

/-- Inside the body of a section, and in a handler, no handler is entered. -/
theorem Tracks.not_interrupted (h : Tracks handlers A s current)
    (hin : s.running.InBody ∨ s.interrupted ≠ []) (vector : ι) :
    s.step handlers (.interrupt vector) = none := by
  rw [Cpu.step, h.flag_eq.1 hin]
  rfl

/-- No program waits inside the body of a section, and at most one waits. -/
theorem Tracks.interrupted (h : Tracks handlers A s current) :
    s.interrupted.length ≤ 1 ∧ ∀ frame ∈ s.interrupted, ¬ frame.2.InBody := by
  cases h with
  | between hflags h => exact ⟨Nat.zero_le _, fun _ hframe ↦ nomatch hframe⟩
  | inSection hcode hflags h hsolo => exact ⟨Nat.zero_le _, fun _ hframe ↦ nomatch hframe⟩
  | inHandler henabled hsaved hbetween hflags h hsolo =>
    refine ⟨Nat.le_refl _, fun frame hframe ↦ ?_⟩
    obtain rfl := List.mem_singleton.mp hframe
    exact hbetween.not_inBody

/-- The processor executes until the program has ended. -/
theorem Tracks.execute (h : Tracks handlers A s current) :
    (s.running.code = [] ∧ s.interrupted = []) ∨ ∃ next, s.step handlers .execute = some next := by
  cases h with
  | between hflags h =>
    rename_i flags code stack wasEnabled
    cases code with
    | nil => exact Or.inl ⟨rfl, rfl⟩
    | cons item code =>
      obtain ⟨flags', shared', context', hadvance, _⟩ :=
        h.execute handlers hflags (List.cons_ne_nil _ _)
      refine Or.inr ⟨⟨flags', shared', context', []⟩, ?_⟩
      simp only [Cpu.step, hadvance, Option.map_some]
  | inSection hcode hflags h hsolo =>
    rename_i flags shared regs code stack wasEnabled body rest
    cases code with
    | nil => cases wasEnabled <;> exact Or.inr ⟨_, rfl⟩
    | cons item code =>
      obtain ⟨_, _, _, _, _, hadvance, _⟩ := h.advance (List.cons_ne_nil _ _) hflags regs shared
      have hall := Context.advance_append hadvance (.stiIfEnabled :: rest.map .run) [A.enabled]
      simp only [Cpu.step, List.cons_append] at hall ⊢
      rw [hall]
      exact Or.inr ⟨_, rfl⟩
  | inHandler henabled hsaved hbetween hflags h hsolo =>
    rename_i flags saved shared regs code code' stack stack' wasEnabled wasEnabled' vector
    cases code with
    | nil => exact Or.inr ⟨_, rfl⟩
    | cons item code =>
      obtain ⟨_, _, _, _, _, hadvance, _⟩ := h.advance (List.cons_ne_nil _ _) hflags regs shared
      simp only [Cpu.step, hadvance, Option.map_some]
      exact Or.inr ⟨_, rfl⟩

/-- After a call of `without_interrupts` the flag is as it was before it. -/
theorem Tracks.flag_restored (h : Tracks handlers A s current) {body : Program ρ σ}
    {rest : List (Item ρ σ)} (hcode : s.running.code = .run (.withoutInterrupts body) :: rest)
    {trace : List (Event ι × Unit)} (hrun : (cpuMachine handlers).Run s trace next)
    (hframes : next.interrupted = s.interrupted) (hcode' : next.running.code = rest) :
    isEnabled next.rflags = isEnabled s.rflags := by
  obtain ⟨order, A', current', hatomic, h', _⟩ := h.run hrun
  have hbody : next.running.InBody ↔ s.running.InBody := by
    simp [Context.InBody, hcode, hcode', Item.opens, Item.closes]
  by_cases hin : s.running.InBody ∨ s.interrupted ≠ []
  · have hin' : next.running.InBody ∨ next.interrupted ≠ [] := by
      rwa [hbody, hframes]
    rw [h.flag_eq.1 hin, h'.flag_eq.1 hin']
  · rw [not_or, not_not] at hin
    obtain ⟨hout, hnil⟩ := hin
    rw [h.flag_eq.2 hout hnil, h'.flag_eq.2 (mt hbody.mp hout) (hframes.trans hnil),
      atomic_run_enabled hatomic]

/-! ### Critical sections -/

/-- What the processor did since the last step of a run in which sections and handlers are single
steps: nothing, or a part of the one section or handler that runs, executed alone. -/
inductive Since (handlers : ι → Program ρ σ) (A : AtomicState ρ σ) (s : Cpu ρ σ) : Option ι → Prop
  /-- Between sections, with no handler running, the effect is the same. -/
  | atRest (hframes : s.interrupted = []) (hout : ¬ s.running.InBody)
      (hregs : s.running.regs = A.regs) (hshared : s.shared = A.shared) : Since handlers A s none
  /-- A section has begun. -/
  | inSection (hframes : s.interrupted = []) {body : Program ρ σ} {rest : List (Program ρ σ)}
      {code : List (Item ρ σ)} (hcode : A.code = .withoutInterrupts body :: rest)
      (hleft : s.running.code = code ++ .stiIfEnabled :: rest.map .run)
      (hsolo : Solo ([.run body], A.regs, A.shared) (code, s.running.regs, s.shared)) :
      Since handlers A s none
  /-- A handler has begun. -/
  | inHandler (hframes : s.interrupted ≠ []) (vector : ι)
      (hsolo : Solo ([.run (handlers vector)], A.regs, A.shared)
        (s.running.code, s.running.regs, s.shared)) : Since handlers A s (some vector)

theorem Tracks.since (h : Tracks handlers A s current) : Since handlers A s current := by
  cases h with
  | between hflags h => exact .atRest rfl h.not_inBody rfl rfl
  | inSection hcode hflags h hsolo => exact .inSection rfl hcode rfl hsolo
  | inHandler henabled hsaved hbetween hflags h hsolo =>
    exact .inHandler (List.cons_ne_nil _ _) _ hsolo

/-- `without_interrupts` is a critical section, for every program, all handlers and every order in
which interrupts arrive. After each call the flag is as it was before it. While the body of a
section runs no handler is entered, and none while a handler runs; no program waits inside the body
of a section, and at most one waits. The processor never gets stuck. And the run has the effect of a
run in which every section and every handler is one step, with the interrupts in the order in which
they arrived: exactly so when no section and no handler is running, and otherwise up to the part of
it that was executed, alone. -/
theorem withoutInterrupts_critical (handlers : ι → Program ρ σ) (program : Program ρ σ)
    (rflags : Flags) (regs : ρ) (shared : σ) {trace : List (Event ι × Unit)}
    (hrun : (cpuMachine handlers).Run (.start program rflags regs shared) trace s) :
    (∀ body rest later next, s.running.code = .run (.withoutInterrupts body) :: rest →
      (cpuMachine handlers).Run s later next → next.interrupted = s.interrupted →
      next.running.code = rest → isEnabled next.rflags = isEnabled s.rflags) ∧
    (s.running.InBody → ∀ vector, s.step handlers (.interrupt vector) = none) ∧
    (s.interrupted ≠ [] → ∀ vector, s.step handlers (.interrupt vector) = none) ∧
    (s.interrupted.length ≤ 1 ∧ ∀ frame ∈ s.interrupted, ¬ frame.2.InBody) ∧
    ((s.running.code = [] ∧ s.interrupted = []) ∨
      ∃ next, s.step handlers .execute = some next) ∧
    ∃ order A current,
      (atomicMachine handlers).Run (.start program rflags regs shared) order A ∧
      interrupts trace = interrupts order ++ current.toList ∧ Since handlers A s current := by
  obtain ⟨order, A, current, hatomic, h, hserved⟩ :=
    (tracks_start handlers program rflags regs shared).run hrun
  exact ⟨fun _ _ _ _ hcode hlater hframes hcode' ↦ h.flag_restored hcode hlater hframes hcode',
    fun hbody ↦ h.not_interrupted (Or.inl hbody), fun hframes ↦ h.not_interrupted (Or.inr hframes),
    h.interrupted, h.execute, order, A, current, hatomic, hserved, h.since⟩

/-- A section that doubles a number and a handler that adds one to it. The interrupt arrives after
the flags were saved and before they are cleared, and is served before the section. -/
theorem withoutInterrupts_critical_double : ∃ s : Cpu Unit ℕ,
    (cpuMachine fun _ : Unit ↦ .step fun (regs, shared) ↦ (regs, shared + 1)).Run
      (.start (.withoutInterrupts (.step fun (regs, shared) ↦ (regs, shared * 2))) interruptFlag
        () 3)
      [(.execute, ()), (.execute, ()), (.interrupt (), ()), (.execute, ()), (.execute, ()),
        (.execute, ()), (.execute, ()), (.execute, ()), (.execute, ())] s ∧
    s.shared = 8 ∧ isEnabled s.rflags = true ∧
    ((s.running.code = [] ∧ s.interrupted = []) ∨ ∃ next,
      s.step (fun _ : Unit ↦ .step fun (regs, shared) ↦ (regs, shared + 1)) .execute =
        some next) := by
  have hrun : (cpuMachine fun _ : Unit ↦ .step fun (regs, shared) ↦ (regs, shared + 1)).Run
      (.start (.withoutInterrupts (.step fun (regs, shared) ↦ (regs, shared * 2))) interruptFlag
        () 3)
      [(.execute, ()), (.execute, ()), (.interrupt (), ()), (.execute, ()), (.execute, ()),
        (.execute, ()), (.execute, ()), (.execute, ()), (.execute, ())]
      ⟨sti (cli interruptFlag), 8, ⟨(), [], [], []⟩, []⟩ := by
    refine Machine.Run.cons rfl (Machine.Run.cons rfl (Machine.Run.cons rfl (Machine.Run.cons rfl
      (Machine.Run.cons rfl (Machine.Run.cons rfl (Machine.Run.cons rfl (Machine.Run.cons rfl
        (Machine.Run.cons rfl .nil))))))))
  obtain ⟨_, _, _, _, hnext, _⟩ := withoutInterrupts_critical _ _ _ _ _ hrun
  exact ⟨_, hrun, rfl, isEnabled_sti _, hnext⟩

end Tracks

end Threads

end RustBL
