import WashController.Proofs.RunLoop

/-!
# Whole runs

What the panel shows around a run is one text before it and one text after it (`opening_eq`,
`closing_eq`). So there are four ways in which a whole run comes to its ending: the run itself comes
to one and both texts are shown, or the output fails before the run, during the run or after it.
These are the cases of `Concludes`, and `conducts_iff` says that there are no others.
-/

namespace WashController

namespace Session

variable {settings : Settings} {assembly : Assembly} {session after : Session}
  {ending : Ending}

/-! ## Around the run -/

/-- What is shown before the program starts. -/
def openingText (settings : Settings) (assembly : Assembly) : String :=
  (if settings.listing then assembly.listing ++ "\n" else "") ++ Panel.banner

/-- What is shown after the program has stopped, of the machine that it leaves. -/
def closingText (settings : Settings) (machine : Machine Word) : String :=
  Panel.summary machine ++ if settings.dumpState then Panel.dump machine else ""

/-- What follows a text is done only if the text fits. -/
theorem bind_print (text : String) (next : Activity) (session : Session) :
    (print text >>= fun _ => next) session =
      if session.sink.accepts text then next (session.put text)
      else .error .sinkFull (session.put text) := by
  change EStateM.bind (print text) (fun _ => next) session = _
  by_cases fits : session.sink.accepts text = true <;> simp [EStateM.bind, print, fits]

/-- Writing two texts is writing them as one. -/
theorem print_append (first second : String) (session : Session) :
    print (first ++ second) session = (print first >>= fun _ => print second) session := by
  rw [bind_print]
  by_cases fits : session.sink.accepts first = true
  · by_cases rest : (session.sink.write first).accepts second = true <;>
      simp [print, put, Sink.accepts_append, Sink.write_append, fits, rest]
  · simp [print, put, Sink.accepts_append, Sink.write_append_of_not_accepts fits, fits]

theorem opening_eq (settings : Settings) (assembly : Assembly) (session : Session) :
    opening settings assembly session = print (openingText settings assembly) session := by
  unfold opening openingText
  cases settings.listing with
  | false => simp
  | true => exact (print_append _ _ session).symm

theorem closing_eq (settings : Settings) (session : Session) :
    closing settings session = print (closingText settings session.machine) session := by
  unfold closing closingText
  cases settings.dumpState with
  | false => simp [printSummary]
  | true =>
      rw [if_pos rfl, print_append, bind_print]
      change EStateM.bind printSummary (fun _ => printDump) session = _
      by_cases fits : session.sink.accepts (Panel.summary session.machine) = true <;>
        simp [EStateM.bind, printSummary, printDump, print, put, fits]

/-! ## Endings of a whole run -/

/-- Whether a whole run, given turns enough, comes to an ending and leaves this session. -/
def Conducts (settings : Settings) (assembly : Assembly) (session : Session) (ending : Ending)
    (after : Session) : Prop :=
  ∃ turns, conduct settings assembly turns session = .error ending after

/-- How a whole run comes to its ending. -/
inductive Concludes (settings : Settings) (assembly : Assembly) (session : Session) :
    Ending → Session → Prop
  | unopened :
    ¬ session.sink.accepts (openingText settings assembly) = true →
    Concludes settings assembly session .sinkFull (session.put (openingText settings assembly))
  | unshown {ran} :
    session.sink.accepts (openingText settings assembly) = true →
    EndsWith assembly settings.limits.maxSteps (session.put (openingText settings assembly))
      .sinkFull ran →
    Concludes settings assembly session .sinkFull ran
  | unclosed {ending ran} :
    session.sink.accepts (openingText settings assembly) = true →
    EndsWith assembly settings.limits.maxSteps (session.put (openingText settings assembly))
      ending ran →
    ending ≠ .sinkFull →
    ¬ ran.sink.accepts (closingText settings ran.machine) = true →
    Concludes settings assembly session .sinkFull (ran.put (closingText settings ran.machine))
  | closed {ending ran} :
    session.sink.accepts (openingText settings assembly) = true →
    EndsWith assembly settings.limits.maxSteps (session.put (openingText settings assembly))
      ending ran →
    ending ≠ .sinkFull →
    ran.sink.accepts (closingText settings ran.machine) = true →
    Concludes settings assembly session ending (ran.put (closingText settings ran.machine))

/-- The run itself starts once the opening is shown. -/
theorem conduct_eq (turns : Nat) :
    conduct settings assembly turns session =
      if session.sink.accepts (openingText settings assembly) then
        Activity.followedBy (advance assembly settings.limits.maxSteps turns) (closing settings)
          (session.put (openingText settings assembly))
      else .error .sinkFull (session.put (openingText settings assembly)) := by
  have opened : opening settings assembly = print (openingText settings assembly) :=
    funext (opening_eq settings assembly)
  rw [conduct, opened]
  exact bind_print _ _ session

/-- Nothing more is shown once the output has failed. -/
theorem followedBy_of_sinkFull {run : Activity} (epilogue : Activity)
    (failed : run session = .error .sinkFull after) :
    run.followedBy epilogue session = .error .sinkFull after := by
  rw [Activity.followedBy, failed]

/-- After any other ending the closing is shown. -/
theorem followedBy_closing {run : Activity} (ended : run session = .error ending after)
    (shown : ending ≠ .sinkFull) :
    run.followedBy (closing settings) session =
      .error (if after.sink.accepts (closingText settings after.machine) then ending else .sinkFull)
        (after.put (closingText settings after.machine)) := by
  rw [Activity.followedBy, ended]
  cases ending with
  | sinkFull => exact absurd rfl shown
  | _ =>
      by_cases fits : after.sink.accepts (closingText settings after.machine) = true <;>
        simp [closing_eq, print, fits]

/-- A whole run comes to an ending just in these ways. -/
theorem conducts_iff :
    Conducts settings assembly session ending after ↔
      Concludes settings assembly session ending after := by
  unfold Conducts
  simp only [conduct_eq]
  refine ⟨?_, ?_⟩
  · intro given
    obtain ⟨turns, conducted⟩ := given
    split at conducted
    next opened =>
      cases outcome : advance assembly settings.limits.maxSteps turns
          (session.put (openingText settings assembly)) with
      | ok _ ran => simp [Activity.followedBy, outcome] at conducted
      | error reached ran =>
          by_cases shown : reached = .sinkFull
          · subst shown
            rw [followedBy_of_sinkFull _ outcome] at conducted
            cases conducted
            exact .unshown opened ⟨turns, outcome⟩
          · rw [followedBy_closing outcome shown] at conducted
            cases conducted
            split
            next fits => exact .closed opened ⟨turns, outcome⟩ shown fits
            next full => exact .unclosed opened ⟨turns, outcome⟩ shown full
    next unopened =>
      cases conducted
      exact .unopened unopened
  · intro concluded
    cases concluded with
    | unopened unopened => exact ⟨0, if_neg unopened⟩
    | unshown opened ends =>
        obtain ⟨turns, ended⟩ := ends
        exact ⟨turns, by rw [if_pos opened, followedBy_of_sinkFull _ ended]⟩
    | unclosed opened ends shown full =>
        obtain ⟨turns, ended⟩ := ends
        exact ⟨turns, by rw [if_pos opened, followedBy_closing ended shown, if_neg full]⟩
    | closed opened ends shown fits =>
        obtain ⟨turns, ended⟩ := ends
        exact ⟨turns, by rw [if_pos opened, followedBy_closing ended shown, if_pos fits]⟩

/-- A run that is followed by something comes to an ending only where the run does. -/
theorem exists_of_followedBy_eq_error {run epilogue : Activity}
    (ended : run.followedBy epilogue session = .error ending after) :
    ∃ reached ran, run session = .error reached ran := by
  cases outcome : run session with
  | ok _ ran => simp [Activity.followedBy, outcome] at ended
  | error reached ran => exact ⟨reached, ran, rfl⟩

/-- A whole run ends in one way only, whatever number of turns it is given. -/
theorem Conducts.unique {other : Ending} {last : Session}
    (conducts : Conducts settings assembly session ending after)
    (again : Conducts settings assembly session other last) : other = ending ∧ last = after := by
  obtain ⟨turns, conducted⟩ := conducts
  obtain ⟨others, again⟩ := again
  rw [conduct_eq] at conducted again
  split at conducted
  next opened =>
    rw [if_pos opened] at again
    obtain ⟨reached, ran, ended⟩ := exists_of_followedBy_eq_error conducted
    obtain ⟨_, _, endedAgain⟩ := exists_of_followedBy_eq_error again
    obtain ⟨rfl, rfl⟩ := EndsWith.unique ⟨turns, ended⟩ ⟨others, endedAgain⟩
    rw [Activity.followedBy, ended] at conducted
    rw [Activity.followedBy, endedAgain, conducted] at again
    cases again
    exact ⟨rfl, rfl⟩
  next unopened =>
    rw [if_neg unopened] at again
    cases conducted
    cases again
    exact ⟨rfl, rfl⟩

end Session

end WashController
