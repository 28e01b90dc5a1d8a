import TcpNet.Logging.Rotation

open CString Files Transition

namespace TcpNet

variable {zone : TimeZone}

/-- The line goes to the log file, or to the standard output without one. -/
theorem Logger.fd_of_record {logger : Logger} {t : Tm} {tv_usec tid lineno fd : Int}
    {level : LogLevel} {file message left bytes : Bytes} {buf : Vector Byte bufSize}
    (h : logger.record t tv_usec tid level file lineno message buf left = some (fd, bytes)) :
    fd = if logger.fd_ = -1 then 1 else logger.fd_ := by
  simp only [record, Option.bind_eq_bind, Option.bind_eq_some_iff, Option.pure_def,
    Option.some.injEq, Prod.mk.injEq] at h
  obtain ⟨_, _, hfd, _⟩ := h
  exact hfd.symm

namespace LogFiles

variable {s s' s₀ : LogFiles} {call : RecordCall} {es tr : List LogEntry}
  {done : List (Volume Bytes Byte)} {last : Volume Bytes Byte}

/-- The log is spread over files of which the last one is open. It has the name that was
    set, or no file has. -/
structure Volumes (s : LogFiles) (done : List (Volume Bytes Byte)) (last : Volume Bytes Byte) :
    Prop where
  holds : Holds s.disk s.logger.fd_ done last
  valid : 0 ≤ s.logger.fd_
  named : last.name = string s.logger.fileName_ ∨ s.disk.link (string s.logger.fileName_) = none

/-- A rotation has found the log file under its name. -/
theorem Volumes.name_eq (h : Volumes s done last) {newName : Bytes} {disk : Disk Bytes Byte}
    (hrename : s.disk.rename (string s.logger.fileName_) newName = some disk) :
    last.name = string s.logger.fileName_ := by
  obtain hnamed | hnone := h.named
  · exact hnamed
  · rw [Disk.rename, hnone] at hrename
    cases hrename

theorem Volumes.kept (h : Volumes s done last) (call : RecordCall) :
    Volumes (s.tried call s.disk) done last :=
  ⟨h.holds, h.valid, h.named⟩

theorem Volumes.unopened (h : Volumes s done last) {newName : Bytes} {disk : Disk Bytes Byte}
    (hrename : s.disk.rename (string s.logger.fileName_) newName = some disk)
    (hunused : s.disk.link newName = none) (call : RecordCall) :
    Volumes (s.tried call disk) done { last with name := newName } := by
  have hname := h.name_eq hrename
  rw [← hname] at hrename
  obtain ⟨hholds, hfree⟩ := h.holds.rename hunused hrename
  rw [hname] at hfree
  exact ⟨hholds, h.valid, .inr hfree⟩

theorem Volumes.rotated (h : Volumes s done last) {newName : Bytes} {disk : Disk Bytes Byte}
    (hrename : s.disk.rename (string s.logger.fileName_) newName = some disk)
    (hunused : s.disk.link newName = none) (hfree : disk.opened call.fd = none) :
    ∃ file, Volumes
      ((s.tried call (disk.openAppend (string s.logger.fileName_) call.fd)).redirect call.fd)
      (done ++ [{ last with name := newName }]) ⟨string s.logger.fileName_, file, []⟩ := by
  have hname := h.name_eq hrename
  rw [← hname] at hrename
  obtain ⟨hholds, hgone⟩ := h.holds.rename hunused hrename
  rw [hname] at hgone
  have hother : call.fd ≠ s.logger.fd_ := by
    intro hsame
    rw [hsame, hholds.opened] at hfree
    cases hfree
  obtain ⟨disk', hdup, hreopened⟩ := hholds.reopen hgone h.valid hother
  refine ⟨disk.created, ?_, h.valid, .inl rfl⟩
  simp only [redirect, tried, hdup, Option.getD_some]
  exact hreopened

/-- A name that a rotation may give is not used by another file. -/
def NameUnused (zone : TimeZone) (s : LogFiles) (call : RecordCall) : Prop :=
  ∀ newName ∈ nameOf zone s call, s.disk.link newName = none

instance (zone : TimeZone) (s : LogFiles) (call : RecordCall) :
    Decidable (NameUnused zone s call) :=
  inferInstanceAs (Decidable (∀ newName ∈ nameOf zone s call, _))

theorem RotateFile.volumes (h : Volumes s done last) (hrotate : RotateFile zone s call s')
    (hunused : Due zone s.logger call.nowTime → NameUnused zone s call) :
    ∃ done' last', Volumes s' done' last' ∧
      (done' ++ [last']).flatMap Volume.text = (done ++ [last]).flatMap Volume.text := by
  cases hrotate with
  | idle hdue => exact ⟨done, last, h, rfl⟩
  | kept hdue hname hfails => exact ⟨done, last, h.kept call, rfl⟩
  | unopened hdue hname hrename hfd =>
    refine ⟨done, _, h.unopened hrename (hunused hdue _ hname) call, ?_⟩
    simp
  | rotated hdue hname hrename hfd hfree =>
    obtain ⟨file, hvolumes⟩ := h.rotated hrename (hunused hdue _ hname) hfree
    refine ⟨_, _, hvolumes, ?_⟩
    simp

/-- A call of `record` looks for a rotation and writes to the last file. -/
theorem record_volumes (h : s.record zone call = .ok (s', es)) : ∃ s₁ text,
    RotateFile zone s call s₁ ∧ ∀ done last, Volumes s₁ done last →
      Volumes s' done { last with text := last.text ++ text } ∧ s'.logger = s₁.logger ∧
        es = [⟨call.nowTime, text⟩] := by
  simp only [record, bind_eq_ok_iff] at h
  obtain ⟨s₁, hrotate, h⟩ := h
  split at h
  · cases h
  · rename_i fd bytes hrecord
    refine ⟨s₁, bytes.take call.accepts, rotateFile_eq_ok hrotate, fun done last hvolumes => ?_⟩
    have hvalid := hvolumes.valid
    have hfd := Logger.fd_of_record hrecord
    rw [if_neg (by omega)] at hfd
    obtain ⟨disk, hwrite, hholds⟩ := hvolumes.holds.write (bytes.take call.accepts)
    rw [← hfd] at hwrite
    rw [hwrite] at h
    obtain ⟨rfl, rfl⟩ := Prod.mk.inj (pure_eq_ok_iff.mp h)
    refine ⟨⟨hholds, hvalid, ?_⟩, rfl, rfl⟩
    simp only [Disk.write] at hwrite
    split at hwrite
    · cases hwrite
    · obtain rfl := Option.some.inj hwrite
      exact hvolumes.named

/-- The log begins with what its file holds. -/
theorem volumes_of_started (h : Started s) : ∃ last, Volumes s [] last ∧
    last.name = string s.logger.fileName_ ∧ s.logger.fileName_.length ≠ 0 ∧
      s.disk.read last.name = some last.text := by
  obtain ⟨s₀, fileName, fd, hsound, hnone, hname, hfd, hset⟩ := h
  simp only [setFileName, if_pos hname, bind_eq_ok_iff, hnone, if_true, pure_eq_ok_iff] at hset
  obtain ⟨disk, hopen, rfl⟩ := hset
  obtain ⟨hfails, _⟩ | ⟨_, _, rfl⟩ := openLog_eq_ok hopen
  · omega
  · obtain ⟨file, hholds⟩ := Holds.start hsound (string fileName) fd
    exact ⟨_, ⟨hholds, hfd, .inl rfl⟩, rfl, hname, hholds.current.read⟩

/-- Greenwich in January 1970. -/
def january : TimeZone where
  timezone := 0
  localtime time := ⟨70, 0, time / 86400 + 1, time % 86400 / 3600, time % 3600 / 60, time % 60⟩

/-- A directory with one file, `log`. -/
def sampleDisk : Disk Bytes Byte where
  link := Function.update (fun _ => none) (ascii ['l', 'o', 'g']) (some 0)
  content := Function.update (fun _ => []) 0 (ascii ['o', 'l', 'd', '\n'])
  opened _ := none
  created := 1

/-- A logger that appends to `log`. -/
def sample : LogFiles where
  logger := { FileLogger.new 0 with fd_ := 3, fileName_ := ascii ['l', 'o', 'g'] }
  disk := sampleDisk.openAppend (ascii ['l', 'o', 'g']) 3

theorem started_sample : Started sample := by
  refine ⟨⟨FileLogger.new 0, sampleDisk⟩, ascii ['l', 'o', 'g'], 3, fun name file hlink => ?_, rfl,
    by decide, by decide, rfl⟩
  simp only [sampleDisk, Function.update_apply] at hlink
  split at hlink
  · obtain rfl := Option.some.inj hlink
    exact Nat.zero_lt_one
  · cases hlink

/-- A message at a time, for which `open` would return 4. -/
def sampleCall (nowTime : Int) (renames : Bool) (message : Bytes) : RecordCall where
  level := .INFO
  file := ascii ['a']
  line := 1
  message := message
  tid := 31
  nowTime := nowTime
  tv_sec := nowTime
  tv_usec := 0
  renames := renames
  fd := 4
  accepts := 1024
  buf := Vector.replicate Logger.bufSize 0
  left := []
  nameLeft := []

/-- Every rotation gives the log file a name that is not in use. -/
def unusedNames (zone : TimeZone) : StepCondition LogFiles Action LogEntry := fun _ s a =>
  match a with
  | .hlog call => s.logger.level_.toNat ≤ call.level.toNat →
      Due zone s.logger call.nowTime → NameUnused zone s call
  | _ => True

instance (zone : TimeZone) (tr : List LogEntry) (s : LogFiles) (a : Action) :
    Decidable (unusedNames zone tr s a) := by
  cases a <;> unfold unusedNames <;> infer_instance

theorem reach_volumes (h₀ : Started s₀)
    (h : ((machine zone).after s₀).Reach (unusedNames zone) tr s) :
    ∃ done last, Volumes s done last ∧ (done ++ [last]).flatMap Volume.text =
      (s₀.disk.read (string s₀.logger.fileName_)).getD [] ++ tr.flatMap LogEntry.text := by
  induction h with
  | init hinit =>
    obtain ⟨last, hvolumes, hname, _, hread⟩ := volumes_of_started h₀
    obtain rfl : _ = s₀ := hinit
    refine ⟨[], last, hvolumes, ?_⟩
    rw [← hname, hread]
    simp
  | @step tr es s s' a _ hcond hstep ih =>
    obtain ⟨done, last, hvolumes, htext⟩ := ih
    rw [List.flatMap_append, ← List.append_assoc, ← htext]
    cases a with
    | hlog call =>
      simp only [Machine.after, machine, step, hlog] at hstep
      split at hstep
      · rename_i hlevel
        obtain ⟨s₁, text, hrotate, hwrites⟩ := record_volumes hstep
        obtain ⟨done', last', hvolumes', htext'⟩ := hrotate.volumes hvolumes (hcond hlevel)
        obtain ⟨hwritten, _, rfl⟩ := hwrites done' last' hvolumes'
        refine ⟨done', _, hwritten, ?_⟩
        rw [← htext']
        simp
      · obtain ⟨rfl, rfl⟩ := Prod.mk.inj (pure_eq_ok_iff.mp hstep)
        exact ⟨done, last, hvolumes, by simp⟩
    | setLogLevel level =>
      obtain ⟨rfl, rfl⟩ := Prod.mk.inj (pure_eq_ok_iff.mp hstep)
      exact ⟨done, last, ⟨hvolumes.holds, hvolumes.valid, hvolumes.named⟩, by simp⟩
    | setRotateInterval rotateInterval =>
      obtain ⟨rfl, rfl⟩ := Prod.mk.inj (pure_eq_ok_iff.mp hstep)
      exact ⟨done, last, ⟨hvolumes.holds, hvolumes.valid, hvolumes.named⟩, by simp⟩

/-- However often the log is rotated, and whatever `rename` and `open` come to, nothing is
    lost as long as the names are unused: there are files, each under its own name, that hold
    what the log file held at first and what was written since, in order. -/
theorem nothing_lost (h₀ : Started s₀)
    (h : ((machine zone).after s₀).Reach (unusedNames zone) tr s) :
    ∃ names : List Bytes, names.Nodup ∧ (∀ name ∈ names, (s.disk.read name).isSome = true) ∧
      names.flatMap (fun name => (s.disk.read name).getD []) =
        (s₀.disk.read (string s₀.logger.fileName_)).getD [] ++ tr.flatMap LogEntry.text := by
  obtain ⟨done, last, hvolumes, htext⟩ := reach_volumes h₀ h
  refine ⟨(done ++ [last]).map Volume.name, hvolumes.holds.names, fun name hname => ?_, ?_⟩
  · obtain ⟨v, hv, rfl⟩ := List.mem_map.mp hname
    rw [(hvolumes.holds.all v hv).read]
    rfl
  · rw [← htext, List.flatMap_map]
    refine List.flatMap_congr fun v hv => ?_
    rw [(hvolumes.holds.all v hv).read, Option.getD_some]

/-- A rotation, and another one of which `rename` does nothing. -/
theorem nothing_lost_kept : ∃ tr s, ((machine january).after sample).Reach (unusedNames january)
    tr s ∧ tr.map LogEntry.time = [10, 86410, 172810] ∧
    ∃ names : List Bytes, names.Nodup ∧ (∀ name ∈ names, (s.disk.read name).isSome = true) ∧
      names.flatMap (fun name => (s.disk.read name).getD []) =
        (sample.disk.read (string sample.logger.fileName_)).getD [] ++
          tr.flatMap LogEntry.text := by
  have hruns : ((machine january).after sample).runsIn (unusedNames january) sample
      [.hlog (sampleCall 10 true [104]), .hlog (sampleCall 86410 true [105]),
        .hlog (sampleCall 172810 false [106])]
      (fun tr _ => tr.map LogEntry.time = [10, 86410, 172810]) = true := by
    decide +kernel
  obtain ⟨tr, s, hreach, htest⟩ := Machine.exists_reachIn rfl hruns
  exact ⟨tr, s, hreach, of_decide_eq_true htest, nothing_lost started_sample hreach⟩

/-- One file of the log: what was in it before, and what was written to it in the interval
    with a number. -/
structure Chapter where
  volume : Volume Bytes Byte
  before : Bytes
  entries : List LogEntry
  number : Int

/-- The clock does not go back behind the last rotation, every rotation succeeds, and the
    interval stays the same. -/
def regular (zone : TimeZone) : StepCondition LogFiles Action LogEntry := fun _ s a =>
  match a with
  | .hlog call => s.logger.level_.toNat ≤ call.level.toNat →
      s.logger.lastRotate_ ≤ call.nowTime ∧
        (Due zone s.logger call.nowTime →
          call.renames = true ∧ 0 ≤ call.fd ∧ NameUnused zone s call)
  | .setLogLevel _ => True
  | .setRotateInterval _ => False

instance (zone : TimeZone) (tr : List LogEntry) (s : LogFiles) (a : Action) :
    Decidable (regular zone tr s a) := by
  cases a <;> unfold regular <;> infer_instance

/-- The chapters of a log, each with the entries of one interval. -/
structure Chapters (zone : TimeZone) (s₀ : LogFiles) (tr : List LogEntry) (s : LogFiles)
    (done : List Chapter) (last : Chapter) : Prop where
  volumes : Volumes s (done.map Chapter.volume) last.volume
  name : last.volume.name = string s.logger.fileName_
  named : s.logger.fileName_.length ≠ 0
  interval : s.logger.rotateInterval_ = s₀.logger.rotateInterval_
  text : ∀ chapter ∈ done ++ [last],
    chapter.volume.text = chapter.before ++ chapter.entries.flatMap LogEntry.text
  before : ∃ n, (done ++ [last]).map Chapter.before =
    (s₀.disk.read (string s₀.logger.fileName_)).getD [] :: List.replicate n []
  entries : (done ++ [last]).flatMap Chapter.entries = tr
  numbers : ((done ++ [last]).map Chapter.number).Pairwise (· < ·)
  now : last.number = s.logger.interval zone s.logger.lastRotate_
  times : ∀ chapter ∈ done ++ [last], ∀ entry ∈ chapter.entries,
    s₀.logger.interval zone entry.time = chapter.number

variable {chapters : List Chapter} {chapter : Chapter}

/-- What is written when no rotation is due goes into the last chapter. -/
theorem Chapters.write (h : Chapters zone s₀ tr s chapters chapter) {text : Bytes} {time : Int}
    (htime : s₀.logger.interval zone time = chapter.number)
    (hvolumes : Volumes s' (chapters.map Chapter.volume)
      { chapter.volume with text := chapter.volume.text ++ text })
    (hlogger : s'.logger = s.logger) :
    Chapters zone s₀ (tr ++ [⟨time, text⟩]) s' chapters { chapter with
      volume := { chapter.volume with text := chapter.volume.text ++ text }
      entries := chapter.entries ++ [⟨time, text⟩] } := by
  have htext := List.forall_mem_append.mp h.text
  have htimes := List.forall_mem_append.mp h.times
  rw [List.forall_mem_singleton] at htext htimes
  refine ⟨hvolumes, ?_, ?_, ?_, ?_, ?_, ?_, ?_, ?_, ?_⟩
  · rw [hlogger]
    exact h.name
  · rw [hlogger]
    exact h.named
  · rw [hlogger]
    exact h.interval
  · refine List.forall_mem_append.mpr ⟨htext.1, List.forall_mem_singleton.mpr ?_⟩
    simp [htext.2]
  · simpa using h.before
  · simp [← h.entries]
  · simpa using h.numbers
  · rw [hlogger]
    exact h.now
  · refine List.forall_mem_append.mpr ⟨htimes.1, List.forall_mem_singleton.mpr ?_⟩
    exact List.forall_mem_append.mpr ⟨htimes.2, List.forall_mem_singleton.mpr htime⟩

/-- A rotation begins a chapter. -/
theorem Chapters.rotated (h : Chapters zone s₀ tr s chapters chapter) {name : Bytes}
    {volume : Volume Bytes Byte}
    (hvolumes : Volumes s' (chapters.map Chapter.volume ++ [{ chapter.volume with name := name }])
      volume) (hname : volume.name = string s'.logger.fileName_) (hempty : volume.text = [])
    (hsame : s'.logger.fileName_ = s.logger.fileName_)
    (hinterval : s'.logger.rotateInterval_ = s.logger.rotateInterval_)
    (hlater : chapter.number < s'.logger.interval zone s'.logger.lastRotate_) :
    Chapters zone s₀ tr s'
      (chapters ++ [{ chapter with volume := { chapter.volume with name := name } }])
      ⟨volume, [], [], s'.logger.interval zone s'.logger.lastRotate_⟩ := by
  have htext := List.forall_mem_append.mp h.text
  have htimes := List.forall_mem_append.mp h.times
  have hnumbers := h.numbers
  obtain ⟨n, hbefore⟩ := h.before
  rw [List.forall_mem_singleton] at htext htimes
  rw [List.map_append, List.pairwise_append] at hnumbers
  refine ⟨by simpa using hvolumes, hname, hsame ▸ h.named, hinterval.trans h.interval, ?_,
    ⟨n + 1, ?_⟩, ?_, ?_, rfl, ?_⟩
  · refine List.forall_mem_append.mpr ⟨?_, List.forall_mem_singleton.mpr (by simp [hempty])⟩
    exact List.forall_mem_append.mpr ⟨htext.1, List.forall_mem_singleton.mpr htext.2⟩
  · rw [List.replicate_succ', ← List.cons_append, ← hbefore]
    simp
  · rw [← h.entries]
    simp
  · rw [List.map_append, List.pairwise_append]
    refine ⟨by simpa using h.numbers, List.pairwise_singleton _ _, fun n hn later hnext => ?_⟩
    obtain rfl : later = _ := List.mem_singleton.mp hnext
    rw [List.map_append, List.mem_append, List.map_singleton, List.mem_singleton] at hn
    obtain hn | rfl := hn
    · exact (hnumbers.2.2 n hn chapter.number List.mem_cons_self).trans hlater
    · exact hlater
  · refine List.forall_mem_append.mpr ⟨?_, List.forall_mem_singleton.mpr (by simp)⟩
    exact List.forall_mem_append.mpr ⟨htimes.1, List.forall_mem_singleton.mpr htimes.2⟩

/-- The interval of a time depends on the length of the intervals only. -/
theorem interval_congr {logger logger' : FileLogger}
    (h : logger'.rotateInterval_ = logger.rotateInterval_) (time : Int) :
    logger'.interval zone time = logger.interval zone time := by
  rw [FileLogger.interval, FileLogger.interval, h]

/-- Where a rotation is due it is made, and a later chapter begins. -/
theorem Chapters.rotate (h : Chapters zone s₀ tr s chapters chapter)
    (hpositive : 0 < s₀.logger.rotateInterval_) (hrotate : RotateFile zone s call s')
    (hclock : s.logger.lastRotate_ ≤ call.nowTime)
    (hsucceeds : Due zone s.logger call.nowTime →
      call.renames = true ∧ 0 ≤ call.fd ∧ NameUnused zone s call) :
    ∃ done last, Chapters zone s₀ tr s' done last ∧
      s₀.logger.interval zone call.nowTime = last.number := by
  cases hrotate with
  | idle hdue =>
    refine ⟨chapters, chapter, h, ?_⟩
    have hsame : s.logger.interval zone call.nowTime =
        s.logger.interval zone s.logger.lastRotate_ :=
      Classical.not_not.mp fun hnew => hdue ⟨h.named, hnew⟩
    rw [h.now, ← hsame, interval_congr h.interval]
  | kept hdue hname hfails =>
    obtain ⟨hrenames, _, hunused⟩ := hsucceeds hdue
    have hrename := hfails hrenames
    rw [← h.name] at hrename
    exact absurd hrename (h.volumes.holds.rename_ne_none (hunused _ hname))
  | unopened hdue hname hrename hfd =>
    obtain ⟨_, hopens, _⟩ := hsucceeds hdue
    omega
  | rotated hdue hname hrename hfd hfree =>
    obtain ⟨_, _, hunused⟩ := hsucceeds hdue
    obtain ⟨file, hvolumes⟩ := h.volumes.rotated hrename (hunused _ hname) hfree
    have hle : s.logger.interval zone s.logger.lastRotate_ ≤
        s.logger.interval zone call.nowTime := by
      refine Int.tdiv_le_tdiv (h.interval.symm ▸ hpositive) ?_
      omega
    have hlater : chapter.number < s.logger.interval zone call.nowTime := by
      rw [h.now]
      exact lt_of_le_of_ne hle hdue.2.symm
    refine ⟨_, _, h.rotated hvolumes rfl rfl rfl rfl hlater, ?_⟩
    exact (interval_congr h.interval call.nowTime).symm

theorem reach_chapters (h₀ : Started s₀) (hpositive : 0 < s₀.logger.rotateInterval_)
    (h : ((machine zone).after s₀).Reach (regular zone) tr s) :
    ∃ done last, Chapters zone s₀ tr s done last := by
  induction h with
  | init hinit =>
    obtain ⟨last, hvolumes, hname, hnamed, hread⟩ := volumes_of_started h₀
    obtain rfl : _ = s₀ := hinit
    refine ⟨[], ⟨last, last.text, [], _⟩, hvolumes, hname, hnamed, rfl, ?_, ⟨0, ?_⟩, rfl,
      List.pairwise_singleton _ _, rfl, ?_⟩
    · simp
    · rw [← hname, hread]
      rfl
    · simp
  | @step tr es s s' a _ hcond hstep ih =>
    obtain ⟨done, last, hchapters⟩ := ih
    cases a with
    | hlog call =>
      simp only [Machine.after, machine, step, hlog] at hstep
      split at hstep
      · rename_i hlevel
        obtain ⟨hclock, hsucceeds⟩ := hcond hlevel
        obtain ⟨s₁, text, hrotate, hwrites⟩ := record_volumes hstep
        obtain ⟨done', last', hchapters', htime⟩ :=
          hchapters.rotate hpositive hrotate hclock hsucceeds
        obtain ⟨hwritten, hlogger, rfl⟩ := hwrites _ _ hchapters'.volumes
        exact ⟨done', _, hchapters'.write htime hwritten hlogger⟩
      · obtain ⟨rfl, rfl⟩ := Prod.mk.inj (pure_eq_ok_iff.mp hstep)
        rw [List.append_nil]
        exact ⟨done, last, hchapters⟩
    | setLogLevel level =>
      obtain ⟨rfl, rfl⟩ := Prod.mk.inj (pure_eq_ok_iff.mp hstep)
      rw [List.append_nil]
      exact ⟨done, last, ⟨hchapters.volumes.holds, hchapters.volumes.valid,
        hchapters.volumes.named⟩, hchapters.name, hchapters.named, hchapters.interval,
        hchapters.text, hchapters.before, hchapters.entries, hchapters.numbers, hchapters.now,
        hchapters.times⟩
    | setRotateInterval rotateInterval => exact hcond.elim

/-- Where the rotations succeed and the clock does not go back, there is one file for each
    interval in which something was written: two entries are in one file exactly if their times
    are in one interval. The first file keeps what it held before. -/
theorem one_file_per_interval (h₀ : Started s₀) (hpositive : 0 < s₀.logger.rotateInterval_)
    (h : ((machine zone).after s₀).Reach (regular zone) tr s) :
    ∃ files : List (Bytes × List LogEntry), (files.map Prod.fst).Nodup ∧
      files.flatMap Prod.snd = tr ∧
      (∃ first rest, files = first :: rest ∧
        s.disk.read first.1 = some ((s₀.disk.read (string s₀.logger.fileName_)).getD [] ++
          first.2.flatMap LogEntry.text) ∧
        ∀ file ∈ rest, s.disk.read file.1 = some (file.2.flatMap LogEntry.text)) ∧
      ∀ file ∈ files, ∀ file' ∈ files, ∀ entry ∈ file.2, ∀ entry' ∈ file'.2,
        (file.1 = file'.1 ↔
          s₀.logger.interval zone entry.time = s₀.logger.interval zone entry'.time) := by
  obtain ⟨done, last, hchapters⟩ := reach_chapters h₀ hpositive h
  have hnames := hchapters.volumes.holds.names
  have hmap : done.map Chapter.volume ++ [last.volume] = (done ++ [last]).map Chapter.volume := by
    simp
  have hfiled := hchapters.volumes.holds.all
  rw [hmap] at hnames hfiled
  have hread : ∀ chapter ∈ done ++ [last], s.disk.read chapter.volume.name =
      some (chapter.before ++ chapter.entries.flatMap LogEntry.text) := by
    intro chapter hchapter
    rw [(hfiled _ (List.mem_map_of_mem hchapter)).read, hchapters.text chapter hchapter]
  have hentries := hchapters.entries
  have htimes := hchapters.times
  have hnumbers := hchapters.numbers
  obtain ⟨n, hbefore⟩ := hchapters.before
  generalize done ++ [last] = chapters at hnames hread hentries htimes hnumbers hbefore
  refine ⟨chapters.map fun chapter => (chapter.volume.name, chapter.entries), ?_, ?_, ?_, ?_⟩
  · rw [List.map_map] at hnames ⊢
    exact hnames
  · rw [← hentries, List.flatMap_map]
  · obtain ⟨first, rest, rfl, hfirst, hrest⟩ := List.map_eq_cons_iff.mp hbefore
    refine ⟨_, _, rfl, ?_, fun file hfile => ?_⟩
    · rw [← hfirst]
      exact hread first List.mem_cons_self
    · obtain ⟨chapter, hchapter, rfl⟩ := List.mem_map.mp hfile
      have hnone : chapter.before = [] := by
        refine List.eq_of_mem_replicate (n := n) ?_
        rw [← hrest]
        exact List.mem_map_of_mem hchapter
      have hchapterRead := hread chapter (List.mem_cons_of_mem first hchapter)
      rwa [hnone, List.nil_append] at hchapterRead
  · intro file hfile file' hfile' entry hentry entry' hentry'
    obtain ⟨chapter, hchapter, rfl⟩ := List.mem_map.mp hfile
    obtain ⟨chapter', hchapter', rfl⟩ := List.mem_map.mp hfile'
    rw [htimes chapter hchapter entry hentry, htimes chapter' hchapter' entry' hentry']
    rw [List.map_map] at hnames
    have hdistinct : (chapters.map Chapter.number).Nodup := hnumbers.imp ne_of_lt
    constructor
    · intro hname
      exact congrArg Chapter.number (List.inj_on_of_nodup_map hnames hchapter hchapter' hname)
    · intro hnumber
      have hsame := List.inj_on_of_nodup_map hdistinct hchapter hchapter' hnumber
      rw [hsame]

/-- Two messages on one day and one on the next. -/
theorem one_file_per_interval_days : ∃ tr s,
    ((machine january).after sample).Reach (regular january) tr s ∧
    tr.map LogEntry.time = [10, 20, 86410] ∧
    ∃ files : List (Bytes × List LogEntry), (files.map Prod.fst).Nodup ∧
      files.flatMap Prod.snd = tr ∧
      ∀ file ∈ files, ∀ file' ∈ files, ∀ entry ∈ file.2, ∀ entry' ∈ file'.2,
        (file.1 = file'.1 ↔ sample.logger.interval january entry.time =
          sample.logger.interval january entry'.time) := by
  have hruns : ((machine january).after sample).runsIn (regular january) sample
      [.hlog (sampleCall 10 true [104]), .hlog (sampleCall 20 true [105]),
        .hlog (sampleCall 86410 true [106])]
      (fun tr _ => tr.map LogEntry.time = [10, 20, 86410]) = true := by
    decide +kernel
  obtain ⟨tr, s, hreach, htest⟩ := Machine.exists_reachIn rfl hruns
  obtain ⟨files, hnames, hentries, _, hsame⟩ :=
    one_file_per_interval started_sample (by decide) hreach
  exact ⟨tr, s, hreach, of_decide_eq_true htest, files, hnames, hentries, hsame⟩

end LogFiles

end TcpNet
