import Vectron.Worker.Pipeline
import Vectron.Worker.Recovery

/-! # Truncation of the log while calls are in flight

A snapshot is cut off at the time `saveHNSW` read before it serialised the index. The
records below that time are deleted, and a replay does not look below it. That loses no
acknowledged write as long as the serialised index has every write with an earlier
timestamp. A write that waits in the queue of the indexer has drawn its timestamp and is
acknowledged, but the index does not have it.
-/

namespace Vectron.Worker

open Foundation OrderedStore Stamped

/-! ## Reflected writes -/

/-- What the log is to say about a write. -/
def Issued.entry (write : Issued) : WalEntry := ⟨write.op.id, write.stamp, write.op.value⟩

/-- A write that a snapshot with a later timestamp takes out of the log. -/
def Issued.isSingle (write : Issued) : Bool :=
  match write.record with
  | none => true
  | some record => !record.isBatch

/-- The timestamp a replay would start from. -/
def System.cut (sys : System) : Nat := sys.persisted.elim 0 Persisted.ts

/-- A write that a crash would not lose: the saved index has it, or a replay would read
it. -/
def Reflected (ns : Bytes) (sys : System) (write : Issued) : Prop :=
  (∃ saved ∈ sys.persisted, write.op ∈ saved.image.covered) ∨
    write.entry ∈ walEntries ns sys.cut sys.db

instance (ns : Bytes) (sys : System) (write : Issued) : Decidable (Reflected ns sys write) :=
  decidable_of_iff ((∃ saved ∈ sys.persisted.toList, write.op ∈ saved.image.covered) ∨
    write.entry ∈ walEntries ns sys.cut sys.db) (by simp [Reflected])

/-- The operations have every write that is cut off at this time. -/
def CoveredBelow (issued : List Issued) (ts : Nat) (ops : List IndexOp) : Prop :=
  ∀ write ∈ issued, write.isSingle = true → write.stamp < ts → write.op ∈ ops

instance (issued : List Issued) (ts : Nat) (ops : List IndexOp) :
    Decidable (CoveredBelow issued ts ops) :=
  inferInstanceAs (Decidable (∀ write ∈ issued, _))

/-- When a goroutine may go on. The clock moves forward; an index is serialised for a
snapshot, or a bulk load is stamped, only when it has the earlier writes and its internal
numbers have not run out; a snapshot does not replace a later one. -/
def AdvanceSafe (s : PipelineSettings) (sys : System) (now : Nat) : InFlight → Prop
  | .checked puts _ => sys.trace.clock < now ∧ BatchReadable s.toSettings now (pairsOf puts)
  | .deleting _ => sys.trace.clock < now ∧ Nanos now
  | .bulkSerialized image _ => sys.trace.clock < now ∧ Nanos now ∧
      CoveredBelow sys.trace.issued now image.covered ∧ image.index.nextID < 2 ^ 32
  | .bulkStamped ts _ _ => sys.cut < ts
  | .saving => sys.trace.clock < now ∧ Nanos now
  | .saveStamped ts => CoveredBelow sys.trace.issued ts sys.trace.applied ∧
      sys.index.nextID < 2 ^ 32
  | .saveCollected ts _ _ => sys.cut < ts
  | _ => True

instance (s : PipelineSettings) (sys : System) (now : Nat) :
    ∀ state, Decidable (AdvanceSafe s sys now state)
  | .checked _ _ => inferInstanceAs (Decidable (_ ∧ _))
  | .stamped _ _ _ _ => inferInstanceAs (Decidable True)
  | .indexing _ _ _ => inferInstanceAs (Decidable True)
  | .deleting _ => inferInstanceAs (Decidable (_ ∧ _))
  | .deleteStamped _ _ => inferInstanceAs (Decidable True)
  | .bulkAdding _ _ => inferInstanceAs (Decidable True)
  | .rollingBack _ => inferInstanceAs (Decidable True)
  | .bulkSerialized _ _ => inferInstanceAs (Decidable (_ ∧ _ ∧ _ ∧ _))
  | .bulkStamped ts _ _ => inferInstanceAs (Decidable (sys.cut < ts))
  | .saving => inferInstanceAs (Decidable (_ ∧ _))
  | .saveStamped _ => inferInstanceAs (Decidable (CoveredBelow _ _ _ ∧ _))
  | .saveSerialized _ _ => inferInstanceAs (Decidable True)
  | .saveCollected ts _ _ => inferInstanceAs (Decidable (sys.cut < ts))

def StepSafe (s : PipelineSettings) (sys : System) : Step → Prop
  | .advance call now => ∀ state ∈ sys.calls.lookup call, AdvanceSafe s sys now state
  | _ => True

instance (s : PipelineSettings) (sys : System) : ∀ step, Decidable (StepSafe s sys step)
  | .call _ => inferInstanceAs (Decidable True)
  | .advance call now =>
      match hlookup : sys.calls.lookup call with
      | none => isTrue (fun state hstate => by rw [hlookup] at hstate; cases hstate)
      | some state => decidable_of_iff (AdvanceSafe s sys now state) (by
          rw [StepSafe, hlookup]
          simp)
  | .receive => inferInstanceAs (Decidable True)
  | .flush => inferInstanceAs (Decidable True)

/-! ## The invariant -/

section Invariant

variable (s : PipelineSettings) (config : IndexConfig)

/-- The record of a write says what it is to say. -/
def Issued.Recorded (write : Issued) : Prop :=
  ∀ record ∈ write.record, record.Readable ∧ record.ts = write.stamp ∧ write.entry ∈ record.entries

/-- The batch of a call writes the records of the call's writes. -/
def FilledWith (ns : Bytes) (issued : List Issued) (batch : List (StoreOp Bytes Bytes))
    (writes : List Issued) : Prop :=
  ∃ records, WritesRecords ns batch records ∧
    (∀ write ∈ writes, write ∈ issued ∧ ∃ record ∈ records, write.record = some record) ∧
    ∀ record ∈ records, (∃ write ∈ issued, write.record = some record) ∧
      ∀ entry ∈ record.entries, ∃ write ∈ issued, write.entry = entry

/-- An image is one that the operations of the index have made. -/
def Image.Sound (trace : Trace) (image : Image) : Prop :=
  Agrees s.arith config image.index image.covered ∧ ∀ op ∈ image.covered, op ∈ trace.applied

/-- What holds of a call in flight. -/
def InFlightOk (trace : Trace) (call : Nat) : InFlight → Prop
  | .stamped batch writes _ _ => FilledWith s.ns trace.issued batch writes
  | .indexing writes _ _ => ∀ write ∈ writes, write ∈ trace.committed
  | .deleteStamped ts id => Nanos ts ∧
      ⟨.delete call id, ts, some (.delete ts id)⟩ ∈ trace.issued
  | .bulkAdding done _ => ∀ put ∈ done, .add put ∈ trace.applied
  | .bulkSerialized image done => image.Sound s config trace ∧
      ∀ put ∈ done, .add put ∈ image.covered
  | .bulkStamped ts image done => image.Sound s config trace ∧
      (∀ put ∈ done, .add put ∈ image.covered) ∧ Nanos ts ∧ ts ≤ trace.clock ∧
      CoveredBelow trace.issued ts image.covered ∧
      ∀ put ∈ done, (⟨.add put, ts, none⟩ : Issued) ∈ trace.issued
  | .saveStamped ts => Nanos ts ∧ ts ≤ trace.clock
  | .saveSerialized ts image => image.Sound s config trace ∧
      Nanos ts ∧ ts ≤ trace.clock ∧ CoveredBelow trace.issued ts image.covered
  | .saveCollected ts image keys => image.Sound s config trace ∧
      Nanos ts ∧ ts ≤ trace.clock ∧ CoveredBelow trace.issued ts image.covered ∧
      ∀ key ∈ keys, key < nsKey s.ns (walCut ts)
  | _ => True

/-- A committed write is in the log above the cut, or below the cut or without a record
and then in the saved index. -/
def Kept (ns : Bytes) (sys : System) (write : Issued) : Prop :=
  match write.record with
  | none => write.stamp ≤ sys.cut ∧ ∃ saved ∈ sys.persisted, write.op ∈ saved.image.covered
  | some record => Holds ns sys.db record ∨ ¬ record.VisibleFrom sys.cut

/-- No crash of this system loses an acknowledged write. -/
structure Durable (sys : System) : Prop where
  agrees : Agrees s.arith config sys.index sys.trace.applied
  logged : Logged s.ns sys.db
  written : ∀ record : WalRecord, record.Readable → Holds s.ns sys.db record →
    ∀ entry ∈ record.entries, ∃ write ∈ sys.trace.issued, write.entry = entry
  cut : Cut sys.cut
  cut_le : sys.cut ≤ sys.trace.clock
  issued : ∀ write ∈ sys.trace.issued, write.stamp ≤ sys.trace.clock ∧ write.Recorded
  records : ∀ first ∈ sys.trace.issued, ∀ second ∈ sys.trace.issued,
    ∀ record ∈ first.record, ∀ other ∈ second.record, record.ts = other.ts → record = other
  saved : ∀ saved ∈ sys.persisted, saved.image.Sound s config sys.trace ∧
    CoveredBelow sys.trace.issued saved.ts saved.image.covered
  committed : ∀ write ∈ sys.trace.committed, write ∈ sys.trace.issued ∧ Kept s.ns sys write
  acked : ∀ write ∈ sys.trace.acked, write ∈ sys.trace.committed
  calls : ∀ call state, sys.calls.lookup call = some state →
    InFlightOk s config sys.trace call state

variable {s config}

theorem Kept.reflected {sys : System} (hinv : Durable s config sys) {write : Issued}
    (hcommitted : write ∈ sys.trace.committed) : Reflected s.ns sys write := by
  obtain ⟨hissued, hkept⟩ := hinv.committed write hcommitted
  obtain ⟨_, hrecorded⟩ := hinv.issued write hissued
  rw [Kept] at hkept
  split at hkept
  next _ => exact Or.inl hkept.2
  next record hrecord =>
    obtain ⟨hreadable, hts, hentry⟩ := hrecorded record hrecord
    by_cases hvisible : record.VisibleFrom sys.cut
    · right
      exact (mem_walEntries hinv.logged hinv.cut).mpr
        ⟨record, hreadable, hkept.resolve_right (not_not.mpr hvisible), hvisible, hentry⟩
    · left
      obtain ⟨hsingle, hearly⟩ := not_or.mp hvisible
      rw [hts, not_le] at hearly
      cases hpersisted : sys.persisted with
      | none =>
          rw [System.cut, hpersisted] at hearly
          exact absurd hearly (Nat.not_lt_zero _)
      | some saved =>
          rw [System.cut, hpersisted] at hearly
          refine ⟨saved, rfl, (hinv.saved saved hpersisted).2 write hissued ?_ hearly⟩
          simpa [Issued.isSingle, hrecord] using hsingle

/-! ## The trace grows -/

/-- What later traces keep of earlier ones. -/
structure Trace.Later (trace later : Trace) : Prop where
  applied : ∀ op ∈ trace.applied, op ∈ later.applied
  committed : ∀ write ∈ trace.committed, write ∈ later.committed
  issued : ∀ write ∈ trace.issued, write ∈ later.issued
  clock : trace.clock ≤ later.clock
  fresh : ∀ write ∈ later.issued, write ∈ trace.issued ∨ trace.clock < write.stamp

theorem Trace.Later.coveredBelow {trace later : Trace} (hlater : trace.Later later) {ts : Nat}
    (hts : ts ≤ trace.clock) {ops : List IndexOp} (hcovered : CoveredBelow trace.issued ts ops) :
    CoveredBelow later.issued ts ops := by
  intro write hwrite hsingle hstamp
  rcases hlater.fresh write hwrite with hold | hnew
  · exact hcovered write hold hsingle hstamp
  · omega

theorem Image.Sound.later {trace later : Trace} (hlater : trace.Later later) {image : Image}
    (hsound : image.Sound s config trace) : image.Sound s config later :=
  ⟨hsound.1, fun op hop => hlater.applied op (hsound.2 op hop)⟩

theorem InFlightOk.later {trace later : Trace} (hlater : trace.Later later) {call : Nat}
    {state : InFlight} (hok : InFlightOk s config trace call state) :
    InFlightOk s config later call state := by
  cases state with
  | stamped batch writes puts async =>
      obtain ⟨records, hwrites, hrecord, hissued⟩ := hok
      refine ⟨records, hwrites, ?_, ?_⟩
      · intro write hwrite
        exact ⟨hlater.issued write (hrecord write hwrite).1, (hrecord write hwrite).2⟩
      · intro record hmem
        obtain ⟨⟨write, hwrite, heq⟩, hentries⟩ := hissued record hmem
        refine ⟨⟨write, hlater.issued write hwrite, heq⟩, ?_⟩
        intro entry hentry
        obtain ⟨other, hother, hsays⟩ := hentries entry hentry
        exact ⟨other, hlater.issued other hother, hsays⟩
  | indexing writes puts async => exact fun write hwrite => hlater.committed write (hok write hwrite)
  | deleteStamped ts id => exact ⟨hok.1, hlater.issued _ hok.2⟩
  | bulkAdding done rest => exact fun put hput => hlater.applied _ (hok put hput)
  | bulkStamped ts image done =>
      obtain ⟨hsound, hdone, hnanos, hts, hcovered, hissued⟩ := hok
      exact ⟨hsound.later hlater, hdone, hnanos, le_trans hts hlater.clock,
        hlater.coveredBelow hts hcovered,
        fun put hput => hlater.issued _ (hissued put hput)⟩
  | saveStamped ts => exact ⟨hok.1, le_trans hok.2 hlater.clock⟩
  | saveSerialized ts image =>
      obtain ⟨hsound, hnanos, hts, hcovered⟩ := hok
      exact ⟨hsound.later hlater, hnanos, le_trans hts hlater.clock, hlater.coveredBelow hts hcovered⟩
  | saveCollected ts image keys =>
      obtain ⟨hsound, hnanos, hts, hcovered, hkeys⟩ := hok
      exact ⟨hsound.later hlater, hnanos, le_trans hts hlater.clock,
        hlater.coveredBelow hts hcovered, hkeys⟩
  | bulkSerialized image done => exact ⟨hok.1.later hlater, hok.2⟩
  | checked puts async
  | deleting id
  | rollingBack ids
  | saving => exact hok

namespace Durable

variable {sys : System}

/-! ## What the parts of a step keep -/

section

variable (hinv : Durable s config sys)

include hinv

theorem enter {call : Nat} {state : InFlight} (hok : InFlightOk s config sys.trace call state) :
    Durable s config (sys.enter call state) := by
  refine { hinv with calls := ?_ }
  intro other otherState hlookup
  rw [System.enter, GoMap.lookup_insert_if] at hlookup
  split at hlookup
  next heq =>
    cases hlookup
    rw [heq]
    exact hok
  next _ => exact hinv.calls other otherState hlookup

theorem leave (call : Nat) : Durable s config (sys.leave call) := by
  refine { hinv with calls := ?_ }
  intro other state hlookup
  rw [System.leave, GoMap.lookup_erase_if] at hlookup
  split at hlookup
  next _ => cases hlookup
  next _ => exact hinv.calls other state hlookup

theorem apply (op : IndexOp) :
    Durable s config (sys.apply s.arith op) := by
  have hlater : sys.trace.Later (sys.apply s.arith op).trace :=
    ⟨fun _ hop => List.mem_append_left _ hop, fun _ hwrite => hwrite, fun _ hwrite => hwrite,
      le_rfl, fun _ hwrite => Or.inl hwrite⟩
  refine { hinv with
    agrees := hinv.agrees.run op
    saved := ?_
    calls := ?_ }
  · intro saved hsaved
    exact ⟨(hinv.saved saved hsaved).1.later hlater, (hinv.saved saved hsaved).2⟩
  · intro call state hlookup
    exact (hinv.calls call state hlookup).later hlater

theorem issue {writes : List Issued} {last : Nat} (hlast : sys.trace.clock ≤ last)
    (hstamps : ∀ write ∈ writes, sys.trace.clock < write.stamp ∧ write.stamp ≤ last)
    (hrecorded : ∀ write ∈ writes, write.Recorded)
    (hunique : ∀ first ∈ writes, ∀ second ∈ writes, ∀ record ∈ first.record,
      ∀ other ∈ second.record, record.ts = other.ts → record = other) :
    Durable s config (sys.issue writes last) := by
  have hlater : sys.trace.Later (sys.issue writes last).trace := by
    refine ⟨fun _ hop => hop, fun _ hwrite => hwrite, ?_, hlast, ?_⟩
    · exact fun write hwrite => List.mem_append_left _ hwrite
    · intro write hwrite
      rcases List.mem_append.mp hwrite with hold | hnew
      · exact Or.inl hold
      · exact Or.inr (hstamps write hnew).1
  -- an old record has a smaller timestamp than a new one
  have hapart : ∀ old ∈ sys.trace.issued, ∀ new ∈ writes, ∀ record ∈ old.record,
      ∀ other ∈ new.record, record.ts < other.ts := by
    intro old hold new hnew record hrecord other hother
    obtain ⟨hle, hold⟩ := hinv.issued old hold
    rw [(hold record hrecord).2.1, (hrecorded new hnew other hother).2.1]
    exact lt_of_le_of_lt hle (hstamps new hnew).1
  refine { hinv with
    written := ?_
    cut_le := ?_
    issued := ?_
    records := ?_
    saved := ?_
    committed := ?_
    calls := ?_ }
  · intro record hreadable hholds entry hentry
    obtain ⟨write, hwrite, heq⟩ := hinv.written record hreadable hholds entry hentry
    exact ⟨write, hlater.issued write hwrite, heq⟩
  · exact le_trans hinv.cut_le hlast
  · intro write hwrite
    rcases List.mem_append.mp hwrite with hold | hnew
    · exact ⟨le_trans (hinv.issued write hold).1 hlast, (hinv.issued write hold).2⟩
    · exact ⟨(hstamps write hnew).2, hrecorded write hnew⟩
  · intro first hfirst second hsecond record hrecord other hother hts
    rcases List.mem_append.mp hfirst with hfirst | hfirst
    · rcases List.mem_append.mp hsecond with hsecond | hsecond
      · exact hinv.records first hfirst second hsecond record hrecord other hother hts
      · exact absurd hts (hapart first hfirst second hsecond record hrecord other hother).ne
    · rcases List.mem_append.mp hsecond with hsecond | hsecond
      · exact absurd hts (hapart second hsecond first hfirst other hother record hrecord).ne'
      · exact hunique first hfirst second hsecond record hrecord other hother hts
  · intro saved hsaved
    obtain ⟨hsound, hcovered⟩ := hinv.saved saved hsaved
    refine ⟨hsound.later hlater, hlater.coveredBelow ?_ hcovered⟩
    have hsaved : sys.persisted = some saved := hsaved
    have hcut : sys.cut = saved.ts := by rw [System.cut, hsaved]; rfl
    rw [← hcut]
    exact hinv.cut_le
  · intro write hwrite
    exact ⟨hlater.issued write (hinv.committed write hwrite).1, (hinv.committed write hwrite).2⟩
  · intro call state hlookup
    exact (hinv.calls call state hlookup).later hlater

theorem commit {batch : List (StoreOp Bytes Bytes)} {writes : List Issued}
    (hfilled : FilledWith s.ns sys.trace.issued batch writes) :
    Durable s config (sys.commit batch writes) := by
  obtain ⟨records, hwrites, hrecord, hissued⟩ := hfilled
  have hlater : sys.trace.Later (sys.commit batch writes).trace :=
    ⟨fun _ hop => hop, fun _ hwrite => List.mem_append_left _ hwrite, fun _ hwrite => hwrite,
      le_rfl, fun _ hwrite => Or.inl hwrite⟩
  refine { hinv with
    logged := hwrites.logged hinv.logged
    written := ?_
    committed := ?_
    acked := ?_
    calls := ?_ }
  · intro record hreadable hholds entry hentry
    rcases hwrites.entries_of_holds hreadable hholds with hbefore | ⟨written, hwritten, heq⟩
    · exact hinv.written record hreadable hbefore entry hentry
    · rw [← heq] at hentry
      exact (hissued written hwritten).2 entry hentry
  · intro write hwrite
    rcases List.mem_append.mp hwrite with hold | hnew
    · obtain ⟨hmem, hkept⟩ := hinv.committed write hold
      refine ⟨hmem, ?_⟩
      rw [Kept] at hkept ⊢
      split at hkept
      next _ => exact hkept
      next record hrec =>
        refine hkept.imp_left ?_
        intro hholds
        obtain ⟨hreadable, _, _⟩ := (hinv.issued write hmem).2 record hrec
        by_cases hsame : ∃ written ∈ records, written.ts = record.ts
        · -- one timestamp is that of one record
          obtain ⟨written, hwritten, hts⟩ := hsame
          obtain ⟨⟨other, hother, hotherRecord⟩, _⟩ := hissued written hwritten
          have heq := hinv.records other hother write hmem written hotherRecord record hrec hts
          rw [← heq]
          exact hwrites.holds_written hwritten
        · push Not at hsame
          exact hwrites.holds_commit hreadable.nanos hholds hsame
    · obtain ⟨hmem, record, hrec, heq⟩ := hrecord write hnew
      refine ⟨hmem, ?_⟩
      rw [Kept, heq]
      exact Or.inl (hwrites.holds_written hrec)
  · intro write hwrite
    exact List.mem_append_left _ (hinv.acked write hwrite)
  · intro call state hlookup
    exact (hinv.calls call state hlookup).later hlater

theorem ack {writes : List Issued} (hcommitted : ∀ write ∈ writes, write ∈ sys.trace.committed) :
    Durable s config (sys.ack writes) := by
  refine { hinv with acked := ?_, calls := ?_ }
  · intro write hwrite
    rcases List.mem_append.mp hwrite with hold | hnew
    · exact hinv.acked write hold
    · exact hcommitted write hnew
  · intro call state hlookup
    exact (hinv.calls call state hlookup).later
      ⟨fun _ hop => hop, fun _ hwrite => hwrite, fun _ hwrite => hwrite, le_rfl,
        fun _ hwrite => Or.inl hwrite⟩

/-- A snapshot with a later timestamp than the one it replaces, whose index has the
writes that are cut off. The batch that saves it may delete what a replay from the new
cut does not read. -/
theorem persist {batch : List (StoreOp Bytes Bytes)} {writes : List Issued} {image : Image}
    {ts : Nat} (hnanos : Nanos ts) (hcut : sys.cut < ts) (hclock : ts ≤ sys.trace.clock)
    (hsound : image.Sound s config sys.trace)
    (hcovered : CoveredBelow sys.trace.issued ts image.covered)
    (hlogged : Logged s.ns (sys.db.commit batch))
    (hbefore : ∀ record : WalRecord, record.Readable → Holds s.ns (sys.db.commit batch) record →
      Holds s.ns sys.db record)
    (hholds : ∀ record : WalRecord, record.Readable → record.VisibleFrom ts →
      Holds s.ns sys.db record → Holds s.ns (sys.db.commit batch) record)
    (hwrites : ∀ write ∈ writes, write ∈ sys.trace.issued ∧ write.record = none ∧ write.stamp ≤ ts ∧
      write.op ∈ image.covered) :
    Durable s config ((sys.commit batch writes).persist image ts) := by
  have hlater : sys.trace.Later (sys.commit batch writes).trace :=
    ⟨fun _ hop => hop, fun _ hwrite => List.mem_append_left _ hwrite, fun _ hwrite => hwrite,
      le_rfl, fun _ hwrite => Or.inl hwrite⟩
  refine { hinv with
    logged := hlogged
    written := ?_
    cut := Or.inr hnanos
    cut_le := hclock
    saved := ?_
    committed := ?_
    acked := ?_
    calls := ?_ }
  · exact fun record hreadable hholds =>
      hinv.written record hreadable (hbefore record hreadable hholds)
  · intro saved hsaved
    cases hsaved
    exact ⟨hsound, hcovered⟩
  · intro write hwrite
    rcases List.mem_append.mp hwrite with hold | hnew
    · obtain ⟨hmem, hkept⟩ := hinv.committed write hold
      refine ⟨hmem, ?_⟩
      rw [Kept] at hkept ⊢
      split at hkept
      next hrec =>
        have hstamp : write.stamp < ts := lt_of_le_of_lt hkept.1 hcut
        refine ⟨hstamp.le, ⟨image, ts⟩, rfl, hcovered write hmem ?_ hstamp⟩
        simp [Issued.isSingle, hrec]
      next record hrec =>
        obtain ⟨hreadable, _, _⟩ := (hinv.issued write hmem).2 record hrec
        by_cases hvisible : record.VisibleFrom ts
        · left
          apply hholds record hreadable hvisible
          refine hkept.resolve_right (not_not.mpr ?_)
          exact hvisible.imp_right (le_trans hcut.le)
        · exact Or.inr hvisible
    · obtain ⟨hmem, hrec, hstamp, hop⟩ := hwrites write hnew
      refine ⟨hmem, ?_⟩
      rw [Kept, hrec]
      exact ⟨hstamp, ⟨image, ts⟩, rfl, hop⟩
  · intro write hwrite
    exact List.mem_append_left _ (hinv.acked write hwrite)
  · intro call state hlookup
    exact (hinv.calls call state hlookup).later hlater

end

end Durable

/-! ## The writes of a store call -/

theorem length_pairsOf (puts : List Put) : (pairsOf puts).length = puts.length :=
  List.length_map _

theorem getElem?_pairsOf {puts : List Put} {i : Nat} {put : Put} (hput : puts[i]? = some put) :
    (pairsOf puts)[i]? = some (put.id, put.value) := by
  rw [pairsOf, List.getElem?_map, hput]
  rfl

theorem mem_writesOf {ts : Nat} {puts : List Put} {write : Issued} :
    write ∈ writesOf s ts puts ↔ ∃ (i : Nat) (put : Put), puts[i]? = some put ∧
      write = if usesWalBatch s.toSettings puts.length then
          ⟨.add put, ts, some (.batch ts (pairsOf puts))⟩
        else ⟨.add put, ts + i, some (.add (ts + i) put.id put.value)⟩ := by
  rw [writesOf, List.mem_map]
  constructor
  · rintro ⟨⟨put, i⟩, hitem, rfl⟩
    exact ⟨i, put, List.mem_zipIdx_iff_getElem?.mp hitem, rfl⟩
  · rintro ⟨i, put, hput, rfl⟩
    exact ⟨(put, i), List.mem_zipIdx_iff_getElem?.mpr hput, rfl⟩

/-- The record of a write of a call is among those of the call's batch. -/
theorem record_of_mem_writesOf {ts : Nat} {puts : List Put} {write : Issued}
    (hwrite : write ∈ writesOf s ts puts) :
    ∃ record ∈ batchRecords s.toSettings ts (pairsOf puts), write.record = some record ∧
      record.ts = write.stamp ∧ write.entry ∈ record.entries ∧
      ts ≤ write.stamp ∧ write.stamp ≤ ts + (puts.length - 1) := by
  obtain ⟨i, put, hput, rfl⟩ := mem_writesOf.mp hwrite
  have hpair := getElem?_pairsOf hput
  have hlt := (List.getElem?_eq_some_iff.mp hput).1
  rw [batchRecords, length_pairsOf]
  split
  next _ =>
    refine ⟨_, List.mem_singleton_self _, rfl, rfl, ?_, le_rfl, Nat.le_add_right _ _⟩
    exact List.mem_map.mpr ⟨_, List.mem_of_getElem? hpair, rfl⟩
  next _ =>
    refine ⟨_, mem_singleRecords.mpr ⟨i, _, hpair, rfl⟩, rfl, rfl, List.mem_singleton_self _,
      Nat.le_add_right _ _, ?_⟩
    exact Nat.add_le_add_left (by omega) _

section

variable {ts : Nat} {puts : List Put} {record : WalRecord}
  (hrecord : record ∈ batchRecords s.toSettings ts (pairsOf puts))

include hrecord

theorem exists_write_of_record :
    ∃ write ∈ writesOf s ts puts, write.record = some record := by
  rw [batchRecords, length_pairsOf] at hrecord
  split at hrecord
  next hbatch =>
    rw [List.mem_singleton.mp hrecord]
    -- a batch that is kept in one record has a first vector
    have hlt : 1 < puts.length := by
      rw [usesWalBatch, Bool.and_eq_true] at hbatch
      exact of_decide_eq_true hbatch.2
    obtain ⟨put, hput⟩ : ∃ put, puts[0]? = some put :=
      ⟨_, List.getElem?_eq_getElem (lt_trans Nat.zero_lt_one hlt)⟩
    exact ⟨_, mem_writesOf.mpr ⟨0, put, hput, rfl⟩, by rw [if_pos hbatch]⟩
  next hsingle =>
    obtain ⟨i, pair, hpair, rfl⟩ := mem_singleRecords.mp hrecord
    rw [pairsOf, List.getElem?_map, Option.map_eq_some_iff] at hpair
    obtain ⟨put, hput, rfl⟩ := hpair
    exact ⟨_, mem_writesOf.mpr ⟨i, put, hput, rfl⟩, by rw [if_neg hsingle]⟩

theorem exists_write_of_entry {entry : WalEntry} (hentry : entry ∈ record.entries) :
    ∃ write ∈ writesOf s ts puts, write.entry = entry := by
  rw [batchRecords, length_pairsOf] at hrecord
  split at hrecord
  next hbatch =>
    rw [List.mem_singleton.mp hrecord, WalRecord.entries, pairsOf, List.map_map] at hentry
    obtain ⟨put, hput, rfl⟩ := List.mem_map.mp hentry
    obtain ⟨i, hi⟩ := List.mem_iff_getElem?.mp hput
    refine ⟨_, mem_writesOf.mpr ⟨i, put, hi, rfl⟩, ?_⟩
    rw [if_pos hbatch]
    rfl
  next hsingle =>
    obtain ⟨i, pair, hpair, rfl⟩ := mem_singleRecords.mp hrecord
    rw [pairsOf, List.getElem?_map, Option.map_eq_some_iff] at hpair
    obtain ⟨put, hput, rfl⟩ := hpair
    rw [List.mem_singleton.mp hentry]
    refine ⟨_, mem_writesOf.mpr ⟨i, put, hput, rfl⟩, ?_⟩
    rw [if_neg hsingle]
    rfl

end

theorem batchRecords_ts_inj {settings : Settings} {ts : Nat} {pairs : List (Bytes × Bytes)}
    {first second : WalRecord} (hfirst : first ∈ batchRecords settings ts pairs)
    (hsecond : second ∈ batchRecords settings ts pairs) (hts : first.ts = second.ts) :
    first = second := by
  rw [batchRecords] at hfirst hsecond
  split at hfirst
  next hbatch =>
    rw [if_pos hbatch] at hsecond
    rw [List.mem_singleton.mp hfirst, List.mem_singleton.mp hsecond]
  next hsingle =>
    rw [if_neg hsingle] at hsecond
    obtain ⟨i, pair, hpair, rfl⟩ := mem_singleRecords.mp hfirst
    obtain ⟨j, pair', hpair', rfl⟩ := mem_singleRecords.mp hsecond
    obtain rfl : i = j := Nat.add_left_cancel hts
    rw [hpair] at hpair'
    cases hpair'
    rfl

namespace Durable

variable {sys : System}

theorem issueStore (hwal : s.config.walEnabled = true) (hinv : Durable s config sys) {now : Nat}
    {puts : List Put} (hclock : sys.trace.clock < now)
    (hreadable : BatchReadable s.toSettings now (pairsOf puts)) (call : Nat) (async : Bool) :
    Durable s config (sys.proceed s call now (.checked puts async)) := by
  have hwrites := storeVectorBatchOps_writes hwal hreadable
  have hissue : Durable s config (sys.issue (writesOf s now puts) (now + (puts.length - 1))) := by
    refine hinv.issue (le_trans hclock.le (Nat.le_add_right _ _)) ?_ ?_ ?_
    · intro write hwrite
      obtain ⟨_, _, _, _, _, hlow, hhigh⟩ := record_of_mem_writesOf hwrite
      exact ⟨lt_of_lt_of_le hclock hlow, hhigh⟩
    · intro write hwrite record hrecord
      obtain ⟨written, hwritten, heq, hts, hentry, _⟩ := record_of_mem_writesOf hwrite
      cases hrecord.symm.trans heq
      exact ⟨hwrites.readable record hwritten, hts, hentry⟩
    · intro first hfirst second hsecond record hrecord other hother hts
      obtain ⟨written, hwritten, heq, _⟩ := record_of_mem_writesOf hfirst
      obtain ⟨written', hwritten', heq', _⟩ := record_of_mem_writesOf hsecond
      cases hrecord.symm.trans heq
      cases hother.symm.trans heq'
      exact batchRecords_ts_inj hwritten hwritten' hts
  refine hissue.enter ⟨_, hwrites, ?_, ?_⟩
  · intro write hwrite
    obtain ⟨record, hrecord, heq, _⟩ := record_of_mem_writesOf hwrite
    exact ⟨List.mem_append_right _ hwrite, record, hrecord, heq⟩
  · intro record hrecord
    obtain ⟨write, hwrite, heq⟩ := exists_write_of_record hrecord
    refine ⟨⟨write, List.mem_append_right _ hwrite, heq⟩, ?_⟩
    intro entry hentry
    obtain ⟨other, hother, hsays⟩ := exists_write_of_entry hrecord hentry
    exact ⟨other, List.mem_append_right _ hother, hsays⟩

theorem indexNext (hinv : Durable s config sys) {call : Nat} {writes : List Issued}
    (hcommitted : ∀ write ∈ writes, write ∈ sys.trace.committed) (put : Put) (rest : List Put)
    (async : Bool) : Durable s config (sys.indexNext s call writes put rest async) := by
  rw [System.indexNext]
  split
  next _ =>
    have hqueued : Durable s config { sys with queue := sys.queue ++ [put] } := { hinv with }
    exact hqueued.enter hcommitted
  next _ =>
    split
    next _ => exact (hinv.apply _).enter hcommitted
    next _ => exact (hinv.apply _).leave call

theorem bulkNext (hinv : Durable s config sys) {call : Nat} {done : List Put}
    (hdone : ∀ put ∈ done, .add put ∈ sys.trace.applied) (entry : VectorEntry)
    (rest : List VectorEntry) : Durable s config (sys.bulkNext s call done entry rest) := by
  rw [System.bulkNext]
  split
  next _ => exact hinv.enter trivial
  next _ =>
    split
    next hadd =>
      split
      next _ => exact (hinv.apply _).enter trivial
      next value _ =>
        refine (hinv.apply _).enter ?_
        intro put hput
        rcases List.mem_append.mp hput with hput | hput
        · exact List.mem_append_left _ (hdone put hput)
        · rw [List.mem_singleton.mp hput]
          apply List.mem_append_right
          rw [IndexOp.outcome, if_pos hadd]
          exact List.mem_singleton_self _
    next _ => exact (hinv.apply _).enter trivial

/-- Deleting keys below a cut keeps the records above it. -/
theorem holds_of_deletes {ns : Bytes} {db : Pebble} {ts : Nat} (hts : Nanos ts) {keys : List Bytes}
    (hkeys : ∀ key ∈ keys, key < nsKey ns (walCut ts)) {record : WalRecord}
    (hreadable : record.Readable) (hvisible : record.VisibleFrom ts) (hholds : Holds ns db record) :
    Holds ns (db.commit (keys.map .delete)) record := by
  rw [Holds, get_commit_deletes, if_neg]
  · exact hholds
  · intro hmem
    have hle := (WalRecord.walCut_le_key (Or.inr hts) hreadable.nanos).mpr hvisible
    exact absurd ((nsKey_le_iff ns _ _).mpr hle) (not_le.mpr (hkeys _ hmem))

theorem coveredKeys_lt {ns : Bytes} {ts : Nat} {db : Pebble} {key : Bytes}
    (hkey : key ∈ coveredKeys ns ts db) : key < nsKey ns (walCut ts) := by
  obtain ⟨entry, hscan, rfl⟩ := List.mem_map.mp hkey
  exact (within_iff.mp (mem_scan.mp hscan).2).2 _ rfl

theorem bulkCommit (hinv : Durable s config sys) {ts : Nat} {image : Image} {done : List Put}
    {call : Nat} (hok : InFlightOk s config sys.trace call (.bulkStamped ts image done))
    (hcut : sys.cut < ts) (now : Nat) :
    Durable s config (sys.proceed s call now (.bulkStamped ts image done)) := by
  obtain ⟨hsound, hdone, hnanos, hts, hcovered, hissued⟩ := hok
  have hops := @bulkLoadOps_writes s.toSettings (pairsOf done)
  refine ((hinv.persist hnanos hcut hts hsound hcovered (hops.logged hinv.logged) ?_ ?_ ?_).ack
    ?_).leave call
  · intro record _ hholds
    rcases get_commit_cases hholds with ⟨hbefore, _⟩ | hset
    · exact hbefore
    · obtain ⟨written, hwritten, _⟩ := hops.record_of_opKey hset rfl
      exact absurd hwritten List.not_mem_nil
  · intro record hreadable _ hholds
    exact hops.holds_commit hreadable.nanos hholds nofun
  · intro write hwrite
    obtain ⟨put, hput, rfl⟩ := List.mem_map.mp hwrite
    exact ⟨hissued put hput, rfl, le_rfl, hdone put hput⟩
  · exact fun write hwrite => List.mem_append_right _ hwrite

/-- Every goroutine that may go on keeps the system durable. -/
theorem proceed (hwal : s.config.walEnabled = true) (hinv : Durable s config sys) {call now : Nat}
    {state : InFlight} (hok : InFlightOk s config sys.trace call state)
    (hsafe : AdvanceSafe s sys now state) : Durable s config (sys.proceed s call now state) := by
  cases state with
  | checked puts async => exact hinv.issueStore hwal hsafe.1 hsafe.2 call async
  | stamped batch writes puts async =>
      exact (hinv.commit hok).enter fun write hwrite => List.mem_append_right _ hwrite
  | indexing writes puts async =>
      cases puts with
      | nil => exact (hinv.ack hok).leave call
      | cons put rest => exact hinv.indexNext hok put rest async
  | deleting id =>
      have hissue : Durable s config
          (sys.issue [⟨.delete call id, now, some (.delete now id)⟩] now) := by
        refine hinv.issue hsafe.1.le ?_ ?_ ?_
        · intro write hwrite
          rw [List.mem_singleton.mp hwrite]
          exact ⟨hsafe.1, le_rfl⟩
        · intro write hwrite record hrecord
          rw [List.mem_singleton.mp hwrite] at hrecord ⊢
          cases hrecord
          exact ⟨hsafe.2, rfl, List.mem_singleton_self _⟩
        · intro first hfirst second hsecond record hrecord other hother _
          rw [List.mem_singleton.mp hfirst] at hrecord
          rw [List.mem_singleton.mp hsecond] at hother
          cases hrecord
          cases hother
          rfl
      exact hissue.enter ⟨hsafe.2, List.mem_append_right _ (List.mem_singleton_self _)⟩
  | deleteStamped ts id =>
      refine ((hinv.commit ⟨_, deleteVectorOps_writes hwal hok.1 id, ?_, ?_⟩).ack ?_).leave call
      · intro write hwrite
        rw [List.mem_singleton.mp hwrite]
        exact ⟨hok.2, _, List.mem_singleton_self _, rfl⟩
      · intro record hrecord
        rw [List.mem_singleton.mp hrecord]
        refine ⟨⟨_, hok.2, rfl⟩, ?_⟩
        intro entry hentry
        rw [List.mem_singleton.mp hentry]
        exact ⟨_, hok.2, rfl⟩
      · exact fun write hwrite => List.mem_append_right _ hwrite
  | bulkAdding done rest =>
      cases rest with
      | nil => exact hinv.enter ⟨⟨hinv.agrees, fun _ hop => hop⟩, hok⟩
      | cons entry rest => exact hinv.bulkNext hok entry rest
  | rollingBack ids =>
      cases ids with
      | nil => exact hinv.leave call
      | cons id ids => exact (hinv.apply _).enter trivial
  | bulkSerialized image done =>
      obtain ⟨hclock, hnanos, hcovered, _⟩ := hsafe
      have hissue : Durable s config
          (sys.issue (done.map fun put => ⟨.add put, now, none⟩) now) := by
        refine hinv.issue hclock.le ?_ ?_ ?_
        · intro write hwrite
          obtain ⟨put, _, rfl⟩ := List.mem_map.mp hwrite
          exact ⟨hclock, le_rfl⟩
        · intro write hwrite record hrecord
          obtain ⟨put, _, rfl⟩ := List.mem_map.mp hwrite
          cases hrecord
        · intro first hfirst _ _ record hrecord
          obtain ⟨put, _, rfl⟩ := List.mem_map.mp hfirst
          cases hrecord
      refine hissue.enter ⟨hok.1, hok.2, hnanos, le_rfl, ?_, ?_⟩
      · intro write hwrite hsingle hstamp
        rcases List.mem_append.mp hwrite with hold | hnew
        · exact hcovered write hold hsingle hstamp
        · obtain ⟨put, _, rfl⟩ := List.mem_map.mp hnew
          exact absurd hstamp (lt_irrefl _)
      · intro put hput
        exact List.mem_append_right _ (List.mem_map.mpr ⟨put, hput, rfl⟩)
  | bulkStamped ts image done => exact hinv.bulkCommit hok hsafe now
  | saving =>
      have hissue : Durable s config (sys.issue [] now) := hinv.issue hsafe.1.le nofun nofun nofun
      exact hissue.enter ⟨hsafe.2, le_rfl⟩
  | saveStamped ts =>
      exact hinv.enter ⟨⟨hinv.agrees, fun _ hop => hop⟩, hok.1, hok.2, hsafe.1⟩
  | saveSerialized ts image =>
      obtain ⟨hsound, hnanos, hts, hcovered⟩ := hok
      exact hinv.enter ⟨hsound, hnanos, hts, hcovered, fun key hkey => coveredKeys_lt hkey⟩
  | saveCollected ts image keys =>
      obtain ⟨hsound, hnanos, hts, hcovered, hkeys⟩ := hok
      have hpersist : Durable s config ((sys.commit (keys.map .delete) []).persist image ts) := by
        refine hinv.persist hnanos hsafe hts hsound hcovered (logged_deletes hinv.logged) ?_ ?_ nofun
        · intro record _ hholds
          rw [Holds, get_commit_deletes] at hholds
          split at hholds
          next _ => cases hholds
          next _ => exact hholds
        · exact fun record hreadable hvisible hholds =>
            holds_of_deletes hnanos hkeys hreadable hvisible hholds
      exact hpersist.leave call

theorem enterNew (hinv : Durable s config sys) {state : InFlight}
    (hok : InFlightOk s config sys.trace sys.nextCall state) :
    Durable s config { sys.enter sys.nextCall state with nextCall := sys.nextCall + 1 } :=
  { hinv.enter hok with }

theorem begin (hinv : Durable s config sys) (request : Request) :
    Durable s config (sys.begin s request) := by
  cases request with
  | storeVector id vector metadata throttled =>
      rw [System.begin]
      split
      next _ => exact hinv
      next value _ => exact hinv.enterNew trivial
  | storeVectorBatch vectors throttled =>
      rw [System.begin]
      split
      next _ => exact hinv
      next _ =>
        split
        next _ => exact hinv.enterNew fun put hput => absurd hput List.not_mem_nil
        next _ =>
          split
          next _ => exact hinv
          next pairs _ => exact hinv.enterNew trivial
  | deleteVector id => exact (hinv.apply (.delete sys.nextCall id)).enterNew trivial
  | saveHNSW => exact hinv.enterNew trivial

theorem step (hwal : s.config.walEnabled = true) (hinv : Durable s config sys) {step : Step}
    (hsafe : StepSafe s sys step) : Durable s config (sys.step s step) := by
  cases step with
  | call request => exact hinv.begin request
  | advance call now =>
      rw [System.step]
      split
      next _ => exact hinv
      next state hlookup =>
        exact hinv.proceed hwal (hinv.calls call state hlookup) (hsafe state hlookup)
  | receive =>
      rw [System.step]
      split
      next _ => exact hinv
      next put rest _ => exact { hinv with }
  | flush =>
      rw [System.step]
      split
      next _ => exact hinv
      next put rest _ =>
        have hrest : Durable s config { sys with ops := rest } := { hinv with }
        exact hrest.apply _

end Durable

/-! ## Crashes -/

/-- The snapshot a crash leaves. -/
def System.snapshot (sys : System) : Option Snapshot :=
  sys.persisted.map fun saved => ⟨saved.image.index, saved.ts⟩

/-- The index after a crash. -/
def System.recovered (s : PipelineSettings) (order : RangeOrder) (sys : System) : Hnsw :=
  loadHNSW s.toSettings order sys.db sys.snapshot

/-- No other write of the id was begun. -/
def Sole (trace : Trace) (write : Issued) : Prop :=
  (∀ other ∈ trace.issued, other.op.id = write.op.id → other = write) ∧
    ∀ op ∈ trace.applied, op.id = write.op.id → op = write.op

instance (trace : Trace) (write : Issued) : Decidable (Sole trace write) :=
  inferInstanceAs (Decidable ((∀ other ∈ trace.issued, _) ∧ ∀ op ∈ trace.applied, _))

theorem itemAfter_of_sole {arith : Arithmetic} {ops : List IndexOp} {put : Put}
    (hsole : ∀ op ∈ ops, op.id = put.id → op = .add put) (hmem : .add put ∈ ops) :
    itemAfter arith config ops put.id = some (kept arith config put.vector) := by
  induction ops using List.reverseRecOn with
  | nil => cases hmem
  | append_singleton ops op ih =>
      rw [itemAfter_append]
      split
      next hid => rw [hsole op (List.mem_append_right _ (List.mem_singleton_self _)) hid]
      next hid =>
        rcases List.mem_append.mp hmem with hmem | hmem
        · exact ih (fun op hop => hsole op (List.mem_append_left _ hop)) hmem
        · rw [← List.mem_singleton.mp hmem] at hid
          exact absurd rfl hid

/-- A crash keeps a vector that is reflected and that nothing else has touched. -/
theorem Durable.item_recovered {sys : System} (hwal : s.config.walEnabled = true)
    (hconfig : config ∈ liveConfigs s.toSettings) (hinv : Durable s config sys) {write : Issued}
    {put : Put} (hop : write.op = .add put) (hreflected : Reflected s.ns sys write)
    (hsole : Sole sys.trace write) (hsurvives : Survives s.toSettings put.vector put.value)
    (order : RangeOrder) :
    (sys.recovered s order).item s.arith put.id = some (kept s.arith config put.vector) := by
  have hid : write.op.id = put.id := by rw [hop]; rfl
  have hentry : write.entry = ⟨put.id, write.stamp, some put.value⟩ := by
    rw [Issued.entry, hop]
    rfl
  -- what the log has for the id comes from the one write
  have honly : ∀ entry ∈ walEntries s.ns sys.cut sys.db, entry.key = put.id →
      entry = write.entry := by
    intro entry hmem hkey
    obtain ⟨record, hreadable, hholds, _, hsays⟩ := (mem_walEntries hinv.logged hinv.cut).mp hmem
    obtain ⟨other, hother, rfl⟩ := hinv.written record hreadable hholds entry hsays
    rw [hsole.1 other hother (hkey.trans hid.symm)]
  have hreplay : ∀ (h : Hnsw), h.config ∈ liveConfigs s.toSettings →
      (write.entry ∈ walEntries s.ns sys.cut sys.db ∨
        h.item s.arith put.id = some (kept s.arith config put.vector)) →
      (replayWALFrom s.arith order s.ns sys.db sys.cut h).item s.arith put.id =
        some (kept s.arith config put.vector) := by
    intro h hlive hcase
    by_cases hlogged : write.entry ∈ walEntries s.ns sys.cut sys.db
    · have hnewest : IsNewest (walEntries s.ns sys.cut sys.db) write.entry :=
        ⟨hlogged, fun other hother hkey => Or.inl (honly other hother (hkey.trans hid))⟩
      have hitem := @item_replayWALFrom_of_isNewest s.arith order _ _ _ h _ hnewest
      have hmeans := hsurvives.means hconfig
      rw [hentry] at hitem
      rw [hitem]
      exact @Means.entryEffect s.toSettings _ _ ⟨put.id, write.stamp, some put.value⟩ hmeans _ hlive
    · rw [item_replayWALFrom_of_forall_ne]
      · exact hcase.resolve_left hlogged
      · intro entry hmem hkey
        rw [honly entry hmem hkey] at hmem
        exact hlogged hmem
  cases hpersisted : sys.persisted with
  | none =>
      rw [System.recovered, System.snapshot, hpersisted, Option.map_none, loadHNSW, if_pos hwal]
      have hcut : sys.cut = 0 := by rw [System.cut, hpersisted]; rfl
      rw [← hcut]
      refine hreplay _ List.mem_cons_self (Or.inl ?_)
      rcases hreflected with ⟨saved, hsaved, _⟩ | hlogged
      · rw [hpersisted] at hsaved
        cases hsaved
      · exact hlogged
  | some saved =>
      obtain ⟨⟨hagrees, happlied⟩, _⟩ := hinv.saved saved hpersisted
      rw [System.recovered, System.snapshot, hpersisted, Option.map_some, loadHNSW, if_pos hwal]
      have hcut : sys.cut = saved.ts := by rw [System.cut, hpersisted]; rfl
      dsimp only
      rw [← hcut]
      apply hreplay
      · have hreloaded : saved.image.index.reloaded.config = config.reloaded := by
          rw [← hagrees.1]
          rfl
        rw [hreloaded]
        exact reloaded_mem_liveConfigs hconfig
      · rcases hreflected with ⟨other, hother, hcovered⟩ | hlogged
        · right
          rw [hpersisted] at hother
          cases hother
          rw [hop] at hcovered
          rw [Hnsw.item_reloaded, hagrees.2]
          refine itemAfter_of_sole ?_ hcovered
          intro op hmem hkey
          rw [← hop]
          exact hsole.2 op (happlied op hmem) (hkey.trans hid.symm)
        · exact Or.inl hlogged

/-! ## Runs -/

/-- A store that is opened for the first time on a database. -/
def System.fresh (s : PipelineSettings) (db : Pebble) : System :=
  System.opened db (Hnsw.new s.config.index) false

theorem durable_fresh {db : Pebble} (hempty : walEntries s.ns 0 db = []) :
    Durable s s.config.index.checked (System.fresh s db) := by
  have hlogged : Logged s.ns db := Logged.of_walEntries_eq_nil hempty
  refine ⟨⟨rfl, fun id => rfl⟩, hlogged, ?_, Or.inl rfl, le_rfl, nofun, nofun, nofun, nofun, nofun,
    nofun⟩
  intro record hreadable hholds entry hentry
  have hmem : entry ∈ walEntries s.ns 0 db :=
    (mem_walEntries hlogged (Or.inl rfl)).mpr
      ⟨record, hreadable, hholds, Or.inr (Nat.zero_le _), hentry⟩
  rw [hempty] at hmem
  cases hmem

end Invariant

/-- The store of `lineSettings` with its indexer. -/
def lineStore : PipelineSettings :=
  { lineSettings with
    asyncIndexingEnabled := true
    indexingQueueSize := 0 }

/-- The store of a vector up to its acknowledgement, with one entry in the queue. -/
def storeSteps (call now : Nat) (id : Bytes) (vector : Vector) : List Step :=
  [.call (.storeVector id vector [] false), .advance call now, .advance call 0, .advance call 0,
    .advance call 0]

def saveSteps (call now : Nat) : List Step :=
  [.call .saveHNSW, .advance call now, .advance call 0, .advance call 0, .advance call 0]

/-- The indexer catches up before the snapshot; a second vector stays in the queue. -/
def drainedSave : List Step :=
  storeSteps 0 1700000000000000000 (idOf 'a') [1] ++ [.receive, .flush] ++
    saveSteps 1 1700000000000000010 ++ storeSteps 2 1700000000000000020 (idOf 'b') [2]

/-- A snapshot while an acknowledged vector waits in the queue. -/
def queuedSave : List Step :=
  storeSteps 0 1700000000000000000 (idOf 'a') [1] ++ saveSteps 1 1700000000000000010

end Vectron.Worker
