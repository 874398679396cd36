import Quorate.Proofs.Merge.Dialogue

/-! Cancelling a merge in a network whose calls are made in turns: between the calls the network is
at rest, so that a cascade of cancels goes all the way down, and the thread of the cancel reports
what the sources answered. -/

set_option autoImplicit false

namespace Quorate

variable {V κ σ : Type}

/-- A merge is cancelled by a cancel only. -/
theorem Progress.run_cancelled {merger : Merger V κ} {p : Progress V} {events : List (Event V)}
    (cancelled : (p.run merger events).state = .cancelled) :
    p.state = .cancelled ∨ .cancelled ∈ events := by
  have outcome (o : Outcome V) : State.ofOutcome o ≠ .cancelled := by cases o <;> nofun
  have gathered (values : List (Option V)) : (gathered merger values).state ≠ .cancelled := by
    unfold Progress.gathered handed
    split
    next =>
      split
      next => split <;> first | exact outcome _ | nofun
      next => nofun
    next => nofun
  induction events generalizing p with
  | nil => exact .inl cancelled
  | cons event events ih =>
    rcases ih cancelled with next | member
    · cases p with
      | gathering values =>
        cases event with
        | arrived index o =>
          cases o with
          | ok v =>
            simp only [Progress.next] at next
            split at next
            next => exact absurd next (gathered _)
            next => cases next
          | error e => cases next
        | cancelled => exact .inr List.mem_cons_self
        | _ => cases next
      | decided state =>
        cases event with
        | arrived index o => cases o <;> exact .inl next
        | _ => exact .inl next
      | _ =>
        cases event with
        | arrived index o => cases o <;> cases next
        | cancelled => exact .inr List.mem_cons_self
        | answered o => first | exact absurd next (outcome o) | cases next
        | panicked => cases next
    · exact .inr (List.mem_cons_of_mem _ member)

/-- The result that a plain frame is about is there. -/
theorem Frame.Plain.subject {s : Store V κ σ} {frame : Frame V κ} (plain : frame.Plain s)
    {r : ResultId} (about : frame.subject? = some r) : r < s.results.length := by
  cases frame with
  | call c =>
    cases c with
    | complete r' state => cases about; exact plain
    | cancel r' => cases about; exact plain
    | register r' task => cases about; exact plain.1
    | _ => first | exact plain.elim | cases about
  | commit merge index =>
    cases about
    obtain ⟨size, isMerge⟩ := plain
    exact isMerge.there
  | deliver r' tasks first reply =>
    cases tasks with
    | nil => cases about; exact plain.1
    | cons => cases about
  | _ => first | exact plain.elim | cases about

section

variable {client : Client V κ σ} {s s₁ : System V κ σ} {h h' : List (Moment V κ σ)} {m : ResultId}

/-- What reaches a merge reaches a result that is there. -/
theorem Run.told_there {s₀ : System V κ σ} (run : Run client Call.Plain s₀ h s) (plain : s₀.Plain)
    {event : Event V} (told : event ∈ h.filterMap (Moment.event? m)) :
    m < s.store.results.length := by
  induction run with
  | start => cases told
  | @step h s₁ s₂ t μ run found step _ ih =>
    obtain ⟨μ', e, calls, moment, yields, rfl⟩ := System.step_yields step
    cases found.symm.trans moment
    have later := yields.touches.later
    rw [(System.moment?_eq_some found).1] at later
    apply later.there
    rw [filterMap_concat] at told
    rcases List.mem_append.mp told with told | told
    · exact ih told
    · apply ((run.plain plain).frames.moment found).1.subject
      apply Decidable.byContradiction
      intro apart
      rw [Moment.event?, Frame.event?_other apart] at told
      cases told
  | begin c _ _ ih => exact ih told
  | pass now _ _ ih => exact ih told

theorem Call.Returning.steady {s : Store V κ σ} {c : Call V κ} (returning : c.Returning s)
    (apart : ∀ r, c ≠ .cancel r) : c.Steady s := by
  obtain ⟨plain, returns⟩ := returning
  cases c with
  | create seed => cases seed <;> exact plain
  | complete r state => exact plain
  | cancel r => exact absurd rfl (apart r)
  | build merger sources => exact ⟨returns, plain.2⟩
  | _ => exact plain.elim

theorem network_append (h h' : List (Moment V κ σ)) :
    network (h ++ h') = network h ++ network h' :=
  List.filterMap_append

/-- A merge that was cancelled when a turn without a cancel has ended was cancelled before. -/
theorem Run.cancelled_before {memory : σ} {c : Call V κ} {merger : Merger V κ}
    {sources : List ResultId} (turns : Turns client memory h s) (steady : c.Steady s.store)
    (run : Run client (fun _ _ => False) (s.begin c) h' s₁) (laid : s₁.Laid client (h ++ h'))
    (node : (network (h ++ h'))[m]? = some (.merge merger sources))
    (cancelled : s₁.store.state? m = some .cancelled) :
    (network h)[m]? = some (.merge merger sources) ∧ s.store.state? m = some .cancelled := by
  have ready := turns.begun steady.plain
  have calm : .cancelled ∉ h'.filterMap (Moment.event? m) := by
    have steady : (s.begin c).Each Frame.Steady :=
      System.Each.begin (fun thread member f included => by
        rw [turns.quiet thread member] at included
        cases included) steady.frame
    exact ((run.mono fun _ _ => False.elim).calm ready.plain steady).2 m
  have state {p : Progress V} (shows : s₁.store.Shows m merger sources p) :
      p.state = .cancelled := by
    obtain ⟨x, there, shows⟩ := shows
    rw [Store.state?_there there, shows.state] at cancelled
    exact Option.some.inj cancelled
  by_cases old : m < (network h).length
  · have node : (network h)[m]? = some (.merge merger sources) := by
      rwa [network_append, List.getElem?_append_left old] at node
    obtain ⟨before, -, x, there, shows⟩ := (turns.laid.since m merger sources node).2.shows
    have fair : Run client Call.Fair (s.begin c) h' s₁ := run.mono fun _ _ => False.elim
    have after := state (fair.shows ready.sound ready.orderly ⟨x, there, shows⟩)
    rcases Progress.run_cancelled after with before | member
    · exact ⟨node, by rw [Store.state?_there there, shows.state, before]⟩
    · exact absurd member calm
  · -- a merge that was made in this turn was told of no cancel
    exfalso
    obtain ⟨h'', part, shows⟩ := (laid.since m merger sources node).2.shows
    have member : .cancelled ∈ h''.filterMap (Moment.event? m) := by
      refine (Progress.run_cancelled (state shows)).resolve_left fun start => ?_
      unfold Progress.start at start
      split at start <;> cases start
    have told := (part.sublist.filterMap (Moment.event? m)).subset member
    rw [List.filterMap_append] at told
    rcases List.mem_append.mp told with told | told
    · have plain : Run client Call.Plain ⟨.empty memory, []⟩ h s :=
      turns.run.mono fun _ _ => And.left
      have there := plain.told_there (System.plain_empty memory) told
      rw [turns.laid.length] at old
      exact old there
    · exact calm told

/-- A cancel makes no result, so the network stays the same. -/
theorem System.Cascade.network_eq (cascade : s₁.Cascade (network h) m s.store)
    (rests : s.store.Rests (network h)) (laid : s₁.Laid client (h ++ h')) :
    network (h ++ h') = network h := by
  have length := laid.length
  rw [network_append, List.length_append, cascade.becomes.length, ← rests.length] at length
  have none : network h' = [] := List.eq_nil_of_length_eq_zero (by omega)
  rw [network_append, none, List.append_nil]

/-- Between calls that are made in turns, a network is at rest. -/
theorem Turns.rests {memory : σ} (turns : Turns client memory h s) :
    s.store.Rests (network h) := by
  have laid := turns.laid
  have ready := turns.ready
  have quiet := turns.quiet
  refine laid.rests ready quiet ?_
  induction turns with
  | start =>
    rintro m r ⟨node, there, -⟩
    cases there
  | @turn h h' s s₁ c turns obeyed run quiet ih =>
    have rests : s.store.Rests (network h) :=
      turns.laid.rests turns.ready turns.quiet (ih turns.laid turns.ready turns.quiet)
    intro m r source cancelled
    by_cases cancels : ∃ r, c = .cancel r
    · obtain ⟨r₀, rfl⟩ := cancels
      have cascade := run.cascade rests (turns.begun obeyed.1) turns.quiet
      rw [cascade.network_eq rests laid] at source
      exact cascade.sealed quiet source cancelled
    · have steady := obeyed.steady fun r same => cancels ⟨r, same⟩
      obtain ⟨node, there, member⟩ := source
      cases node with
      | leaf => cases member
      | merge merger sources =>
        obtain ⟨node, before⟩ := Run.cancelled_before turns steady run laid there cancelled
        exact run.store_later.peaceful (rests.ended m r ⟨_, node, member⟩ (.inr before))

/-- No thread but `t` has frames left. -/
def System.Alone (t : Nat) (s : System V κ σ) : Prop :=
  ∀ t' thread, s.threads[t']? = some thread → t' ≠ t → thread.frames = []

theorem System.Quiet.alone {s : System V κ σ} (quiet : s.Quiet) (c : Call V κ) :
    (s.begin c).Alone s.threads.length := by
  intro t thread there other
  have bound := (List.getElem?_eq_some_iff.mp there).1
  simp only [begin, List.length_append, List.length_singleton] at bound
  have old : t < s.threads.length := by omega
  rw [begin, List.getElem?_append_left old] at there
  exact quiet thread (List.mem_of_getElem? there)

theorem System.Alone.moment {t t' : Nat} {μ : Moment V κ σ} (alone : s.Alone t)
    (found : s.moment? t' = some μ) : t' = t := by
  apply Decidable.byContradiction
  intro other
  cases alone t' _ (System.moment?_eq_some found).2.2 other

theorem Run.alone {t : Nat} (run : Run client (fun _ _ => False) s h s₁) (ready : s.Ready)
    (alone : s.Alone t) : s₁.Alone t := by
  induction run with
  | start => exact alone
  | @step h s₁ s₂ t' μ run found step _ ih =>
    obtain ⟨μ', e, calls, moment, yields, rfl⟩ := System.step_yields step
    cases found.symm.trans moment
    have plain : Run client Call.Plain s h s₁ := run.mono fun _ _ => False.elim
    obtain ⟨rfl, -⟩ := (plain.plain ready.plain).resumed found yields
    cases ih.moment found
    intro t'' thread there other
    rw [System.after, List.map_nil, List.append_nil, List.getElem?_set_ne (Ne.symm other)] at there
    exact ih t'' thread there other
  | begin c _ obeyed => exact obeyed.elim
  | pass now _ _ ih => exact ih

end

section

variable {client : Client V κ σ} {s s₁ : System V κ σ} {h : List (Moment V κ σ)} {m : ResultId}
  {net : List (Node V κ)} {x : Result V κ}
    (run : Run client (fun _ _ => False) (s.begin (.cancel m)) h s₁)
  (ready : (s.begin (.cancel m)).Ready) (quiet : s.Quiet) (rests : s.store.Rests net)
  (there : s.store.results[m]? = some x)
include run ready quiet rests there

/-- A cancel of a result that has ended is refused, and changes nothing. -/
theorem Run.refused (ended : x.cell.state ≠ .pending) :
    s₁.store.results = s.store.results ∧
      (s₁.threads[s.threads.length]? = some (.ofCall (.cancel m)) ∨
        s₁.threads[s.threads.length]? = some ⟨.ok (.flag false), []⟩) := by
  induction run with
  | start => exact ⟨rfl, .inl (System.begin_self s _)⟩
  | @step h s₁ s₂ t μ run found step _ ih =>
    obtain ⟨μ', e, calls, moment, yields, rfl⟩ := System.step_yields step
    cases found.symm.trans moment
    have alone := (run.alone ready (quiet.alone _)).moment found
    subst alone
    obtain ⟨same, calling | finished⟩ := ih
    · have plain : Run client Call.Plain _ h s₁ := run.mono fun _ _ => False.elim
      obtain ⟨rfl, effect⟩ := (plain.plain ready.plain).resumed found yields
      have self := System.after_self found e []
      obtain ⟨store, t, result, frame, below⟩ := μ
      cases (System.moment?_eq_some found).2.2.symm.trans calling
      have cascade := run.cascade rests ready quiet
      rw [← same] at there
      cases cascade.becomes.asked rests cascade.later there effect with
      | refused => exact ⟨same, .inr self⟩
      | leaf _ pending => exact absurd pending ended
      | merge _ pending => exact absurd pending ended
    · obtain ⟨store, t, result, frame, below⟩ := μ
      cases (System.moment?_eq_some found).2.2.symm.trans finished
  | begin c _ obeyed => exact obeyed.elim
  | pass now _ _ ih => exact ih

/-- A cancel of a pending merge asks its sources. -/
theorem Run.dialogue {merge : Merge V κ} (kind : x.kind = .merge merge)
    (pending : x.cell.state = .pending) :
    s₁.store.results = s.store.results ∧
        h.filterMap (Moment.talk? s.threads.length 0) = [] ∧
        s₁.threads[s.threads.length]? = some (.ofCall (.cancel m)) ∨
      s₁.store.state? m = some .cancelled ∧ ∃ thread,
        s₁.threads[s.threads.length]? = some thread ∧ Dialogue m merge.gathering.sources
          (h.filterMap (Moment.talk? s.threads.length 0)) thread := by
  induction run with
  | start => exact .inl ⟨rfl, rfl, System.begin_self s _⟩
  | @step h s₁ s₂ t μ run found step _ ih =>
    obtain ⟨μ', e, calls, moment, yields, rfl⟩ := System.step_yields step
    cases found.symm.trans moment
    have alone := (run.alone ready (quiet.alone _)).moment found
    subst alone
    have plain : Run client Call.Plain _ h s₁ := run.mono fun _ _ => False.elim
    have before := plain.ready ready
    obtain ⟨rfl, effect⟩ := before.plain.resumed found yields
    obtain ⟨store, thread, selected⟩ := System.moment?_eq_some found
    have self := System.after_self found e []
    have cascade := run.cascade rests ready quiet
    right
    rw [filterMap_concat]
    rcases ih with ⟨same, none, calling⟩ | ⟨cancelled, thread', there', dialogue⟩
    · obtain ⟨_, t, result, frame, below⟩ := μ
      cases selected.symm.trans calling
      dsimp only at store thread
      subst store
      rw [← same] at there
      cases cascade.becomes.asked rests cascade.later there effect with
      | refused ended => exact absurd pending ended
      | leaf leaf => cases kind.symm.trans leaf
      | merge kind' _ cancelled =>
        cases kind.symm.trans kind'
        refine ⟨(Store.state?_set there).trans (congrArg some cancelled), _, self, ?_⟩
        have silent : (Moment.mk s₁.store t (.ok .unit) (.call (.cancel m)) []).talk?
            s.threads.length 0 = Option.none := by simp [Moment.talk?, Moment.at?]
        rw [none, silent]
        have heard : [] ++ [.hears true] = conversation [] := rfl
        exact .hears heard rfl rfl
    · cases selected.symm.trans there'
      have here := (cascade.frames.moment found).1
      obtain ⟨a, calm⟩ := cascade.answered _ (List.mem_of_getElem? selected) (by simp)
      have fits := (before.step found yields).fits _ (List.mem_of_getElem? self)
      have apart : ∀ r task, μ.frame ≠ .call (.register r task) := by
        intro r task frame
        rw [frame] at here
        exact here
      dsimp only at calm
      have moved := (Store.resume_touches effect).later
      rw [calm] at effect
      obtain ⟨answered, -⟩ := here.step rests cascade.later cascade.becomes effect
      rw [← calm, ← store] at effect
      have next := dialogue.step apart ⟨a, calm⟩ effect answered fits
      rw [thread] at next
      exact ⟨moved.state? cancelled (by simp), _, self, next⟩
  | begin c _ obeyed => exact obeyed.elim
  | pass now _ _ ih => exact ih

end

/-- What a cancel of the pending merge `m` over `sources` has done to a network, from `s` to `s'`,
when it is over. -/
structure CancelledBelow (net : List (Node V κ)) (m : ResultId) (sources : List ResultId)
    (s : System V κ σ) (h : List (Moment V κ σ)) (s' : System V κ σ) : Prop where
  cancelled : s'.store.state? m = some .cancelled
  /-- Everything below the merge has ended, and without a failure. -/
  below : ∀ r, Below net m r → s'.store.Peaceful r
  /-- Only the merge and results below it have another state than before: they were pending, and
  are cancelled. -/
  changes : ∀ r state, s.store.state? r = some state →
    s'.store.state? r = some state ∨
      state = .pending ∧ (r = m ∨ Below net m r) ∧ s'.store.state? r = some .cancelled
  nothing_made : s'.store.results.length = s.store.results.length
  /-- Every source was asked once and in order, whatever those before it answered, and the answer is
  yes if all of them said yes. -/
  answered : ∃ answers : List (ResultId × Bool), answers.map Prod.fst = sources ∧
    h.filterMap (Moment.talk? s.threads.length 0) = conversation answers ∧
    s'.threads[s.threads.length]? = some ⟨.ok (.flag (answers.all Prod.snd)), []⟩

/-- In a network whose calls are made in turns, a cancel of a merge ends. A merge that has ended
refuses it, and nothing changes; a pending one is cancelled together with all that is pending below
it, and nothing else changes. -/
theorem cancel_transitive {client : Client V κ σ} {memory : σ} {h : List (Moment V κ σ)}
    {s : System V κ σ} (turns : Turns client memory h s) {m : ResultId} {merger : Merger V κ}
    {sources : List ResultId} (node : (network h)[m]? = some (.merge merger sources)) :
    (s.begin (.cancel m)).Ends client ∧
      ∀ h' s', Run client (fun _ _ => False) (s.begin (.cancel m)) h' s' → s'.Quiet →
        (s.store.state? m ≠ some .pending →
          s'.threads[s.threads.length]? = some ⟨.ok (.flag false), []⟩ ∧
            s'.store.results = s.store.results) ∧
        (s.store.state? m = some .pending →
          CancelledBelow (network h) m sources s h' s') := by
  have rests := turns.rests
  obtain ⟨cell, merge, there, held⟩ := rests.merge m merger sources node
  have plain : (Call.cancel m : Call V κ).Plain s.store := (List.getElem?_eq_some_iff.mp there).1
  have ready := turns.begun plain
  refine ⟨ready.ends, fun h' s' run quiet => ⟨fun ended => ?_, fun pending => ?_⟩⟩
  · have ended : cell.state ≠ .pending := by
      intro pending
      rw [Store.state?_there there] at ended
      exact ended (congrArg some pending)
    obtain ⟨same, calling | finished⟩ := run.refused ready turns.quiet rests there ended
    · cases quiet _ (List.mem_of_getElem? calling)
    · exact ⟨finished, same⟩
  · rw [Store.state?_there there] at pending
    have pending : cell.state = .pending := Option.some.inj pending
    have all : merge.gathering.sources = sources :=
      held.resolve_right fun released => released.2 pending
    have cascade := run.cascade rests ready turns.quiet
    have next : Turns client memory (h ++ h') s' := turns.turn ⟨plain, trivial⟩ run quiet
    rcases run.dialogue ready turns.quiet rests there rfl pending with
      ⟨-, -, calling⟩ | ⟨cancelled, thread, there', dialogue⟩
    · cases quiet _ (List.mem_of_getElem? calling)
    · refine ⟨cancelled, fun r below => ?_, fun r state before => ?_, cascade.becomes.length, ?_⟩
      · rw [← cascade.network_eq rests next.laid] at below
        exact next.rests.below below (.inr cancelled)
      · obtain ⟨x, found, rfl⟩ := Option.map_eq_some_iff.mp before
        obtain ⟨x', found', becomes⟩ := cascade.becomes.there r x found
        rw [Store.state?_there found']
        cases becomes with
        | kept same => exact .inl (congrArg some same)
        | cancelled within pending cancelled =>
          exact .inr ⟨pending, within, congrArg some cancelled⟩
      · have finished := quiet thread (List.mem_of_getElem? there')
        rw [all] at dialogue
        generalize h'.filterMap (Moment.talk? s.threads.length 0) = said at dialogue
        cases dialogue with
        | ended order => exact ⟨_, order, rfl, there'⟩
        | hears => cases finished
        | asks => cases finished
        | waits => exact absurd finished (by simp)
        | delivers => exact absurd finished (by simp)

namespace Forest

def client : Client Nat Unit Unit := .panicking Nat "unused"

/-- The number of values. -/
def count : Merger Nat Unit := .plain fun values => .ok (.ok values.length)

/-- Two leaves. -/
def leaves : List (Moment Nat Unit Unit) × System Nat Unit Unit :=
  let (h, s) := (System.mk (.empty ()) []).call client (.create .settable) 1
  let (h', s) := s.call client (.create .settable) 1
  (h ++ h', s)

/-- A merge of both. -/
def inner : List (Moment Nat Unit Unit) × System Nat Unit Unit :=
  leaves.2.call client (.build count [0, 1]) 6

/-- A merge of the first merge and of a leaf. -/
def outer : List (Moment Nat Unit Unit) × System Nat Unit Unit :=
  inner.2.call client (.build count [2, 0]) 6

/-- A merge of the other leaf. -/
def aside : List (Moment Nat Unit Unit) × System Nat Unit Unit :=
  outer.2.call client (.build count [1]) 4

def history : List (Moment Nat Unit Unit) := leaves.1 ++ inner.1 ++ outer.1 ++ aside.1

def cancelled : List (Moment Nat Unit Unit) × System Nat Unit Unit :=
  aside.2.call client (.cancel 3) 36

/-- The merge at the side waits for its leaf still, though that has been cancelled. -/
theorem merge_aside_waits :
    Turns client () history aside.2 ∧
      CancelledBelow (network history) 3 [2, 0] aside.2 cancelled.1 cancelled.2 ∧
      cancelled.2.store.state? 1 = some .cancelled ∧
      cancelled.2.store.state? 4 = some .pending := by
  have silent (μ : Moment Nat Unit Unit) (c : Call Nat Unit) (made : μ.call? client = some c) :
      False := by
    rw [client, Client.panicking_call?] at made
    cases made
  have create {s : System Nat Unit Unit} :
      (Call.create .settable : Call Nat Unit).Returning s.store :=
    ⟨trivial, trivial⟩
  have build {s : System Nat Unit Unit} {sources : List ResultId}
      (there : ∀ r ∈ sources, r < s.store.results.length) :
      (Call.build count sources).Returning s.store :=
    ⟨⟨⟨_, rfl⟩, there⟩, ⟨_, rfl⟩⟩
  have turns : Turns client () leaves.1 leaves.2 := by
    have nothing : Turns client () [] ⟨.empty (), []⟩ := .start
    have first := nothing.turn create (Run.drive silent _ [0]) (System.quiet_of_all rfl)
    exact first.turn create (Run.drive silent _ [1]) (System.quiet_of_all rfl)
  have turns : Turns client () (leaves.1 ++ inner.1) inner.2 :=
    turns.turn (build (by decide)) (Run.drive silent _ _) (System.quiet_of_all rfl)
  have turns : Turns client () (leaves.1 ++ inner.1 ++ outer.1) outer.2 :=
    turns.turn (build (by decide)) (Run.drive silent _ _) (System.quiet_of_all rfl)
  have turns : Turns client () history aside.2 :=
    turns.turn (build (by decide)) (Run.drive silent _ _) (System.quiet_of_all rfl)
  have nodes : network history =
      [.leaf, .leaf, .merge count [0, 1], .merge count [2, 0], .merge count [1]] := rfl
  have node : (network history)[3]? = some (.merge count [2, 0]) := by
    rw [nodes]
    rfl
  obtain ⟨-, ended⟩ := cancel_transitive turns node
  have run : Run client (fun _ _ => False) (aside.2.begin (.cancel 3)) cancelled.1 cancelled.2 :=
    Run.drive silent _ _
  exact ⟨turns, (ended _ _ run (System.quiet_of_all rfl)).2 rfl, rfl, rfl⟩

end Forest

end Quorate
