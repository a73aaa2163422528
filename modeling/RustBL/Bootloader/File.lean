import RustBL.Library.Bytes
import RustBL.Library.Loop

/-!
# Reading a file

`read_file` asks the firmware for a file and reads it into a buffer of the size the firmware
reports. A read fills a prefix of the slice it is given with the next bytes of the file, of any
length the firmware likes, or fails; `RegularFile.answers` says what the firmware does at each read,
so that a statement about every file is one about every way to cut the file into reads.

The reads up to the first that fails or delivers nothing decide how the loop ends
(`loop_readTurn`), and `readFile_exact` says when the buffer is returned and what it holds.
-/

set_option autoImplicit false
set_option relaxedAutoImplicit false

namespace RustBL

/-! ### The firmware -/

/-- A status of the firmware. -/
structure Status where
  /-- The code. -/
  code : UInt64
  deriving DecidableEq, Repr

namespace Status

/-- `Status::INVALID_PARAMETER`. -/
def INVALID_PARAMETER : Status := ⟨0x8000000000000002⟩

/-- `Status::END_OF_FILE`. -/
def END_OF_FILE : Status := ⟨0x800000000000001f⟩

end Status

/-- A regular file, and how the firmware reads it. -/
structure RegularFile where
  /-- The size that the firmware reports, or its failure to. -/
  info : Except Status UInt64
  /-- The bytes of the file. -/
  content : List UInt8
  /-- The number of bytes that a read is ready to deliver, or its failure. -/
  answers : ℕ → Except Status ℕ

/-- What `open` returns. -/
inductive FileHandle
  /-- A regular file. -/
  | regular (file : RegularFile)
  /-- A directory. -/
  | directory

/-- The firmware that the file is read from, and the memory for its bytes. -/
structure FileFirmware where
  /-- `boot::get_image_file_system(boot::image_handle())`. -/
  imageFileSystem : Except Status Unit
  /-- `fs.open_volume()`. -/
  openVolume : Except Status Unit
  /-- `root.open(name, FileMode::Read, FileAttribute::empty())`. -/
  openFile : List UInt16 → Except Status FileHandle
  /-- Whether the memory for a buffer is granted. -/
  allocates : ℕ → Bool

/-- How far a file has been read. -/
structure FileCursor where
  /-- The bytes that were delivered. -/
  position : ℕ
  /-- The reads that were made. -/
  reads : ℕ

/-- `file.read(slice)`: the number of bytes read and the slice with its prefix overwritten. -/
def RegularFile.read (file : RegularFile) (cursor : FileCursor) (slice : List UInt8) :
    Except Status (ℕ × List UInt8 × FileCursor) := do
  let ready ← file.answers cursor.reads
  let chunk := (file.content.drop cursor.position).take (min ready slice.length)
  return (chunk.length, chunk ++ slice.drop chunk.length,
    ⟨cursor.position + chunk.length, cursor.reads + 1⟩)

/-! ### The program -/

/-- How `read_file` ends without a buffer. -/
inductive ReadError
  /-- `Err(status)`. -/
  | status (status : Status)
  /-- The memory for the buffer is refused, which stops the bootloader. -/
  | outOfMemory
  deriving DecidableEq

/-- A computation that may end with an error of `read_file`. -/
abbrev Reading (α : Type) := ExceptT ReadError Checked α

/-- `reply.map_err(|e| e.status())?`. -/
def mapErr {α : Type} (reply : Except Status α) : Reading α :=
  match reply with
  | .ok value => return value
  | .error status => throw (.status status)

@[simp] theorem mapErr_ok {α : Type} (value : α) : mapErr (.ok value) = pure value :=
  rfl

/-- The variables of the loop, and how far the file has been read. -/
structure Filling where
  /-- `buffer`. -/
  buffer : List UInt8
  /-- `filled`. -/
  filled : ℕ
  /-- The cursor of the firmware. -/
  cursor : FileCursor

/-- A turn of `while filled < size`. -/
def readTurn (file : RegularFile) (size : ℕ) (state : Filling) :
    Checked (Turn Filling (Except ReadError (List UInt8))) :=
  if state.filled < size then do
    let slice ← Bytes.range state.buffer state.filled state.buffer.length
    match file.read state.cursor slice with
    | .error status => return .done (.error (.status status))
    | .ok (read, slice, cursor) =>
      if read = 0 then return .done (.error (.status .END_OF_FILE))
      else do
        let filled ← Word.add state.filled read
        return .again ⟨state.buffer.take state.filled ++ slice, filled, cursor⟩
  else return .done (.ok state.buffer)

/-- `handle.into_regular_file().ok_or(Status::INVALID_PARAMETER)?`. -/
def intoRegularFile : FileHandle → Reading RegularFile
  | .regular file => return file
  | .directory => throw (.status .INVALID_PARAMETER)

/-- `vec![0u8; size]`. -/
def zeroedBuffer (firmware : FileFirmware) (size : ℕ) : Reading (List UInt8) :=
  if firmware.allocates size then return List.replicate size 0
  else throw .outOfMemory

/-- `read_file`. -/
def readFile (fuel : ℕ) (firmware : FileFirmware) (name : List UInt16) : Reading (List UInt8) := do
  mapErr firmware.imageFileSystem
  mapErr firmware.openVolume
  let handle ← mapErr (firmware.openFile name)
  let file ← intoRegularFile handle
  let info ← mapErr file.info
  let size := info.toNat
  let buffer ← zeroedBuffer firmware size
  ExceptT.mk (loop (readTurn file size) fuel ⟨buffer, 0, ⟨0, 0⟩⟩)

/-! ### The reads of a file -/

namespace RegularFile

section Reads

variable (file : RegularFile) (size : ℕ)

/-- What a read returns at a position, when it is asked for the bytes up to `size`. -/
def readLength (position read : ℕ) : Except Status ℕ := do
  let ready ← file.answers read
  return min (min ready (size - position)) (file.content.length - position)

/-- The bytes that the first reads deliver. -/
def served : ℕ → ℕ
  | 0 => 0
  | reads + 1 =>
    match file.readLength size (served reads) reads with
    | .ok length => served reads + length
    | .error _ => served reads

/-- What a read returns, when it follows all reads before it. -/
def reply (read : ℕ) : Except Status ℕ :=
  file.readLength size (file.served size read) read

/-- The read delivers some bytes. -/
def Delivers (read : ℕ) : Prop :=
  ∃ length, file.reply size read = .ok length ∧ length ≠ 0

/-- The loop behind the first reads. -/
def filling (reads : ℕ) : Filling where
  buffer := file.content.take (file.served size reads) ++
    List.replicate (size - file.served size reads) 0
  filled := file.served size reads
  cursor := ⟨file.served size reads, reads⟩

/-- How the loop ends at a read that delivers nothing. -/
def ending (read : ℕ) : Except ReadError (List UInt8) :=
  if file.served size read < size then
    match file.reply size read with
    | .ok _ => .error (.status .END_OF_FILE)
    | .error status => .error (.status status)
  else .ok (file.content.take size)

end Reads

section Reads

variable {file : RegularFile} {size read reads length : ℕ}

theorem reply_eq_ok : file.reply size read = .ok length ↔
    ∃ ready, file.answers read = .ok ready ∧
      length = min (min ready (size - file.served size read))
        (file.content.length - file.served size read) := by
  rw [reply, readLength, bind_eq_ok]
  exact exists_congr fun ready ↦ and_congr_right fun _ ↦
    ⟨fun h ↦ (Except.ok.inj h).symm, fun h ↦ congrArg Except.ok h.symm⟩

/-- A read delivers bytes of the file that were asked for. -/
theorem length_le (h : file.reply size read = .ok length) :
    length ≤ size - file.served size read ∧
      length ≤ file.content.length - file.served size read := by
  obtain ⟨ready, _, rfl⟩ := reply_eq_ok.mp h
  omega

theorem served_succ (h : file.reply size read = .ok length) :
    file.served size (read + 1) = file.served size read + length := by
  rw [reply] at h
  rw [served, h]

theorem served_le (reads : ℕ) :
    file.served size reads ≤ size ∧ file.served size reads ≤ file.content.length := by
  induction reads with
  | zero => exact ⟨Nat.zero_le _, Nat.zero_le _⟩
  | succ reads ih =>
    cases hreply : file.reply size reads with
    | ok length =>
      have hlength := length_le hreply
      rw [served_succ hreply]
      omega
    | error status =>
      rw [reply] at hreply
      rw [served, hreply]
      exact ih

/-- The first read that delivers nothing is determined. -/
theorem stop_unique {first second : ℕ} (hfirst : ∀ read < first, file.Delivers size read)
    (hstop : ¬ file.Delivers size first) (hsecond : ∀ read < second, file.Delivers size read)
    (hstop' : ¬ file.Delivers size second) : first = second := by
  rcases lt_trichotomy first second with hlt | heq | hlt
  · exact absurd (hsecond first hlt) hstop
  · exact heq
  · exact absurd (hfirst second hlt) hstop'

/-- A read behind the last byte asked for delivers nothing. -/
theorem not_delivers (hfull : file.served size read = size) : ¬ file.Delivers size read := by
  rintro ⟨length, hreply, hlength⟩
  have hbound := length_le hreply
  omega

/-- A read that does not fail and delivers nothing returns zero. -/
theorem length_eq_zero (hstop : ¬ file.Delivers size read)
    (hreply : file.reply size read = .ok length) : length = 0 := by
  by_contra hlength
  exact hstop ⟨length, hreply, hlength⟩

/-! ### The loop -/

theorem length_served (reads : ℕ) :
    (file.content.take (file.served size reads)).length = file.served size reads := by
  rw [List.length_take, min_eq_left (file.served_le reads).2]

theorem length_filling (reads : ℕ) : (file.filling size reads).buffer.length = size := by
  rw [filling, List.length_append, length_served, List.length_replicate]
  exact Nat.add_sub_cancel' (file.served_le reads).1

/-- The slice that the loop passes to a read. -/
theorem range_filling (reads : ℕ) :
    Bytes.range (file.filling size reads).buffer (file.filling size reads).filled
        (file.filling size reads).buffer.length =
      .ok (List.replicate (size - file.served size reads) 0) := by
  have hstart : (file.filling size reads).filled ≤ (file.filling size reads).buffer.length := by
    rw [length_filling]
    exact (file.served_le reads).1
  rw [Bytes.range_eq hstart le_rfl, length_filling, filling]
  dsimp only
  rw [List.drop_left' (length_served reads), List.take_of_length_le List.length_replicate.le]

/-- What a read of the loop returns. -/
theorem read_filling (reads : ℕ) :
    file.read (file.filling size reads).cursor
        (List.replicate (size - file.served size reads) 0) =
      (file.reply size reads).map fun length ↦
        (length, (file.content.drop (file.served size reads)).take length ++
            List.replicate (size - file.served size reads - length) 0,
          ⟨file.served size reads + length, reads + 1⟩) := by
  rw [RegularFile.read, reply, readLength, filling]
  dsimp only
  cases file.answers reads with
  | error status => rfl
  | ok ready =>
    rw [ok_bind, ok_bind, pure_eq_ok, pure_eq_ok, Except.map, List.length_replicate,
      List.length_take, List.length_drop, List.drop_replicate]
    congr 3
    rw [← List.length_drop, ← List.take_eq_take_min]

/-- A read that delivers bytes takes the loop to the next read. -/
theorem readTurn_again (hsize : size < 2 ^ 64) (hdelivers : file.Delivers size reads) :
    readTurn file size (file.filling size reads) =
      .ok (.again (file.filling size (reads + 1))) := by
  obtain ⟨length, hreply, hlength⟩ := hdelivers
  obtain ⟨hrest, hcontent⟩ := length_le hreply
  have hmore : (file.filling size reads).filled < size := by
    rw [filling]
    dsimp only
    omega
  rw [readTurn, if_pos hmore, range_filling, ok_bind, read_filling, hreply, Except.map]
  dsimp only
  rw [if_neg hlength, Word.add_eq (by rw [filling]; dsimp only; omega), ok_bind, pure_eq_ok,
    filling, filling, served_succ hreply]
  dsimp only
  rw [List.take_left' (length_served reads), ← List.append_assoc, ← List.take_add, Nat.sub_sub]

/-- A read that delivers nothing ends the loop. -/
theorem readTurn_done (hstop : ¬ file.Delivers size reads) :
    readTurn file size (file.filling size reads) = .ok (.done (file.ending size reads)) := by
  rw [readTurn, ending]
  by_cases hmore : file.served size reads < size
  · have hfilled : (file.filling size reads).filled < size := hmore
    rw [if_pos hfilled, if_pos hmore, range_filling, ok_bind, read_filling]
    cases hreply : file.reply size reads with
    | error status => rfl
    | ok length =>
      rw [length_eq_zero hstop hreply]
      rfl
  · have hfilled : ¬ (file.filling size reads).filled < size := hmore
    have hall : file.served size reads = size :=
      le_antisymm (file.served_le reads).1 (not_lt.mp hmore)
    rw [if_neg hfilled, if_neg hmore, filling, hall, Nat.sub_self, List.replicate_zero,
      List.append_nil]
    rfl

/-- The loop ends at the first read that delivers nothing. -/
theorem loop_readTurn (hsize : size < 2 ^ 64) (reads : ℕ)
    (hreads : ∀ read < reads, file.Delivers size read) :
    ∃ stop, (∀ read < stop, file.Delivers size read) ∧ ¬ file.Delivers size stop ∧
      ∀ fuel, size - file.served size reads < fuel →
        loop (readTurn file size) fuel (file.filling size reads) = .ok (file.ending size stop) := by
  induction hleft : size - file.served size reads using Nat.strong_induction_on
    generalizing reads with
  | h left ih =>
    by_cases hdelivers : file.Delivers size reads
    · obtain ⟨length, hreply, hlength⟩ := hdelivers
      have hbound := length_le hreply
      have hserved := served_succ hreply
      have hreads' : ∀ read < reads + 1, file.Delivers size read := by
        intro read hread
        rcases Nat.lt_succ_iff_lt_or_eq.mp hread with hlt | rfl
        · exact hreads read hlt
        · exact ⟨length, hreply, hlength⟩
      obtain ⟨stop, hstop, hends, hloop⟩ := ih _ (by omega) (reads + 1) hreads' rfl
      refine ⟨stop, hstop, hends, fun fuel hfuel ↦ ?_⟩
      obtain ⟨more, rfl⟩ : ∃ more, fuel = more + 1 := ⟨fuel - 1, by omega⟩
      rw [loop_again more (readTurn_again hsize ⟨length, hreply, hlength⟩)]
      exact hloop more (by omega)
    · refine ⟨reads, hreads, hdelivers, fun fuel hfuel ↦ ?_⟩
      obtain ⟨more, rfl⟩ : ∃ more, fuel = more + 1 := ⟨fuel - 1, by omega⟩
      exact loop_done more (readTurn_done hdelivers)

/-- The loop ends with a buffer exactly when the reads before the first that delivers nothing
deliver all that was asked for. -/
theorem ending_eq_ok {stop : ℕ} (hreads : ∀ read < stop, file.Delivers size read)
    (hstop : ¬ file.Delivers size stop) {buffer : List UInt8} :
    file.ending size stop = .ok buffer ↔
      (∃ reads, (∀ read < reads, file.Delivers size read) ∧ file.served size reads = size) ∧
        buffer = file.content.take size ∧ buffer.length = size := by
  constructor
  · intro hending
    rw [ending] at hending
    split_ifs at hending with hmore
    · split at hending <;> cases hending
    · have hfull : file.served size stop = size :=
        le_antisymm (file.served_le stop).1 (not_lt.mp hmore)
      cases hending
      refine ⟨⟨stop, hreads, hfull⟩, rfl, ?_⟩
      have hlength : (file.content.take (file.served size stop)).length = _ := length_served stop
      rw [hfull] at hlength
      exact hlength
  · rintro ⟨⟨reads, hdelivered, hfull⟩, rfl, _⟩
    obtain rfl := stop_unique hreads hstop hdelivered (not_delivers hfull)
    exact if_neg (not_lt.mpr hfull.ge)

/-- The loop ends with a status exactly when the first read that delivers nothing comes early: the
status of its failure, or `END_OF_FILE`. -/
theorem ending_eq_status {stop : ℕ} (hreads : ∀ read < stop, file.Delivers size read)
    (hstop : ¬ file.Delivers size stop) {status : Status} :
    file.ending size stop = .error (.status status) ↔
      ∃ reads, (∀ read < reads, file.Delivers size read) ∧ file.served size reads < size ∧
        (file.reply size reads = .ok 0 ∧ status = .END_OF_FILE ∨
          file.reply size reads = .error status) := by
  constructor
  · intro hending
    rw [ending] at hending
    split_ifs at hending with hmore
    refine ⟨stop, hreads, hmore, ?_⟩
    cases hreply : file.reply size stop with
    | ok length =>
      rw [hreply] at hending
      rw [length_eq_zero hstop hreply]
      exact Or.inl ⟨rfl, (ReadError.status.inj (Except.error.inj hending)).symm⟩
    | error failure =>
      rw [hreply] at hending
      exact Or.inr (congrArg _ (ReadError.status.inj (Except.error.inj hending)))
  · rintro ⟨reads, hdelivered, hmore, hend⟩
    have hnothing : ¬ file.Delivers size reads := by
      rintro ⟨length, hreply, hlength⟩
      rcases hend with ⟨hzero, _⟩ | herror
      · exact hlength (Except.ok.inj (hreply.symm.trans hzero))
      · exact (nomatch hreply.symm.trans herror)
    obtain rfl := stop_unique hreads hstop hdelivered hnothing
    rw [ending, if_pos hmore]
    rcases hend with ⟨hzero, rfl⟩ | herror
    · rw [hzero]
    · rw [herror]

end Reads

end RegularFile

/-! ### The program -/

/-- The name is that of a regular file. -/
structure FileFirmware.Opens (firmware : FileFirmware) (name : List UInt16) (file : RegularFile) :
    Prop where
  imageFileSystem : firmware.imageFileSystem = .ok ()
  openVolume : firmware.openVolume = .ok ()
  openFile : firmware.openFile name = .ok (.regular file)

section ReadFile

variable {firmware : FileFirmware} {name : List UInt16} {file : RegularFile} {size : UInt64}

/-- A buffer is returned for a regular file with a size only. -/
theorem opens_of_readFile {fuel : ℕ} {buffer : List UInt8}
    (h : (readFile fuel firmware name).run = .ok (.ok buffer)) :
    ∃ file size, firmware.Opens name file ∧ file.info = .ok size := by
  rw [readFile] at h
  cases hsystem : firmware.imageFileSystem with
  | error status => rw [hsystem] at h; cases h
  | ok _ =>
    cases hvolume : firmware.openVolume with
    | error status => rw [hsystem, hvolume] at h; cases h
    | ok _ =>
      cases hopen : firmware.openFile name with
      | error status => rw [hsystem, hvolume, hopen] at h; cases h
      | ok handle =>
        rw [hsystem, hvolume, hopen] at h
        cases handle with
        | directory => cases h
        | regular file =>
          cases hinfo : file.info with
          | error status =>
            simp only [mapErr_ok, intoRegularFile, pure_bind, hinfo] at h
            cases h
          | ok size => exact ⟨file, size, ⟨hsystem, hvolume, hopen⟩, hinfo⟩

theorem readFile_eq (fuel : ℕ) (hopens : firmware.Opens name file) (hinfo : file.info = .ok size) :
    (readFile fuel firmware name).run =
      if firmware.allocates size.toNat then
        loop (readTurn file size.toNat) fuel (file.filling size.toNat 0)
      else .ok (.error .outOfMemory) := by
  simp only [readFile, hopens.imageFileSystem, hopens.openVolume, hopens.openFile, hinfo,
    mapErr_ok, intoRegularFile, pure_bind, zeroedBuffer]
  split_ifs
  · rw [pure_bind, RegularFile.filling]
    rfl
  · rfl

/-- Whatever the firmware answers, `read_file` returns with enough turns for the reported size. -/
theorem readFile_returns {fuel : ℕ} (hfuel : ∀ file size, firmware.Opens name file →
    file.info = .ok size → size.toNat < fuel) :
    ∃ outcome, (readFile fuel firmware name).run = .ok outcome := by
  cases hsystem : firmware.imageFileSystem with
  | error status => exact ⟨.error (.status status), by rw [readFile, hsystem]; rfl⟩
  | ok _ =>
    cases hvolume : firmware.openVolume with
    | error status => exact ⟨.error (.status status), by rw [readFile, hsystem, hvolume]; rfl⟩
    | ok _ =>
      cases hopen : firmware.openFile name with
      | error status =>
        exact ⟨.error (.status status), by rw [readFile, hsystem, hvolume, hopen]; rfl⟩
      | ok handle =>
        cases handle with
        | directory =>
          exact ⟨.error (.status .INVALID_PARAMETER), by
            rw [readFile, hsystem, hvolume, hopen]; rfl⟩
        | regular file =>
          cases hinfo : file.info with
          | error status =>
            refine ⟨.error (.status status), ?_⟩
            simp only [readFile, hsystem, hvolume, hopen, mapErr_ok, intoRegularFile, pure_bind,
              hinfo]
            rfl
          | ok size =>
            have hopens : firmware.Opens name file := ⟨hsystem, hvolume, hopen⟩
            rw [readFile_eq fuel hopens hinfo]
            split_ifs
            · obtain ⟨stop, _, _, hloop⟩ := RegularFile.loop_readTurn size.toNat_lt 0
                fun read hread ↦ absurd hread (Nat.not_lt_zero read)
              exact ⟨_, hloop fuel ((Nat.sub_le _ _).trans_lt (hfuel file size hopens hinfo))⟩
            · exact ⟨_, rfl⟩

/-- A buffer that is returned holds the first bytes of the file, as many as its reported size. -/
theorem readFile_content {fuel : ℕ} {buffer : List UInt8} (hopens : firmware.Opens name file)
    (hinfo : file.info = .ok size) (hfuel : size.toNat < fuel)
    (h : (readFile fuel firmware name).run = .ok (.ok buffer)) :
    buffer = file.content.take size.toNat ∧ buffer.length = size.toNat := by
  rw [readFile_eq fuel hopens hinfo] at h
  split_ifs at h with hgranted
  · obtain ⟨stop, hreads, hstop, hloop⟩ := RegularFile.loop_readTurn size.toNat_lt 0
      fun read hread ↦ absurd hread (Nat.not_lt_zero read)
    rw [hloop fuel ((Nat.sub_le _ _).trans_lt hfuel)] at h
    exact ((RegularFile.ending_eq_ok hreads hstop).mp (Except.ok.inj h)).2
  · exact nomatch h

/-- Reading a regular file ends, however the firmware cuts it into reads. The buffer is returned
exactly when the reads before the first that fails or delivers nothing deliver the reported size,
and holds the first bytes of the file. An earlier end is reported with the status of the failure, or
with `END_OF_FILE`. -/
theorem readFile_exact (hopens : firmware.Opens name file) (hinfo : file.info = .ok size) :
    ∃ outcome, (∀ fuel, size.toNat < fuel → (readFile fuel firmware name).run = .ok outcome) ∧
      (outcome = .error .outOfMemory ↔ firmware.allocates size.toNat = false) ∧
      (∀ buffer, outcome = .ok buffer ↔ firmware.allocates size.toNat = true ∧
        (∃ reads, (∀ read < reads, file.Delivers size.toNat read) ∧
          file.served size.toNat reads = size.toNat) ∧
        buffer = file.content.take size.toNat ∧ buffer.length = size.toNat) ∧
      ∀ status, outcome = .error (.status status) ↔ firmware.allocates size.toNat = true ∧
        ∃ reads, (∀ read < reads, file.Delivers size.toNat read) ∧
          file.served size.toNat reads < size.toNat ∧
          (file.reply size.toNat reads = .ok 0 ∧ status = .END_OF_FILE ∨
            file.reply size.toNat reads = .error status) := by
  cases hgranted : firmware.allocates size.toNat with
  | false =>
    refine ⟨.error .outOfMemory, fun fuel _ ↦ ?_, iff_of_true rfl rfl, fun buffer ↦ ?_,
      fun status ↦ ?_⟩
    · rw [readFile_eq fuel hopens hinfo, hgranted]
      rfl
    · refine iff_of_false (fun hbuffer ↦ ?_) fun h ↦ absurd h.1 Bool.false_ne_true
      cases hbuffer
    · refine iff_of_false (fun hstatus ↦ ?_) fun h ↦ absurd h.1 Bool.false_ne_true
      cases hstatus
  | true =>
    have hnone : ∀ read < 0, file.Delivers size.toNat read :=
      fun read hread ↦ absurd hread (Nat.not_lt_zero read)
    obtain ⟨stop, hreads, hstop, hloop⟩ := RegularFile.loop_readTurn size.toNat_lt 0 hnone
    refine ⟨file.ending size.toNat stop, fun fuel hfuel ↦ ?_, ?_, fun buffer ↦ ?_, fun status ↦ ?_⟩
    · rw [readFile_eq fuel hopens hinfo, if_pos hgranted]
      exact hloop fuel hfuel
    · refine iff_of_false (fun hending ↦ ?_) Bool.true_eq_false.mp
      rw [RegularFile.ending] at hending
      split_ifs at hending
      split at hending <;> cases hending
    · rw [RegularFile.ending_eq_ok hreads hstop]
      exact (and_iff_right rfl).symm
    · rw [RegularFile.ending_eq_status hreads hstop]
      exact (and_iff_right rfl).symm

/-- A file of five bytes that is reported with four, and delivered in two reads. -/
def splitFile : RegularFile where
  info := .ok 4
  content := [0x7f, 0x45, 0x4c, 0x46, 0x02]
  answers read := if read = 0 then .ok 1 else .ok 3

/-- A volume that holds this file under every name. -/
def splitFirmware : FileFirmware where
  imageFileSystem := .ok ()
  openVolume := .ok ()
  openFile _ := .ok (.regular splitFile)
  allocates _ := true

theorem readFile_exact_splitFile :
    (readFile 5 splitFirmware []).run = .ok (.ok [0x7f, 0x45, 0x4c, 0x46]) := by
  have hopens : splitFirmware.Opens [] splitFile := ⟨rfl, rfl, rfl⟩
  have hinfo : splitFile.info = .ok 4 := rfl
  obtain ⟨outcome, hends, _, hbuffer, _⟩ := readFile_exact hopens hinfo
  have hreads : ∀ read < 2, splitFile.Delivers 4 read := by
    intro read hread
    have hcases : read = 0 ∨ read = 1 := by omega
    rcases hcases with rfl | rfl
    · exact ⟨1, rfl, by decide⟩
    · exact ⟨3, rfl, by decide⟩
  have hok := (hbuffer [0x7f, 0x45, 0x4c, 0x46]).mpr ⟨rfl, ⟨2, hreads, rfl⟩, rfl, rfl⟩
  rw [hends 5 (by decide), hok]

end ReadFile

end RustBL
