import Mathlib.Data.List.Induction
import StaleRead.Proofs.Settings.Loading
import StaleRead.Settings.Session

/-! # The history of a session

In a session variables are set and unset, files are written and removed, and settings objects are
made, shared and dropped. What has happened decides the text of each variable: it is what the last
event gave it that set it, unset it, or loaded a file that has a value for it while it did not exist
(`Session.get?_after_iff`). Settings are read from the environment alone, and the shared object
stays the same until it is dropped (`Session.orderly_after`).
-/

namespace StaleRead

/-- What can happen in a session. A settings object is made from a given file or the default one. -/
inductive SessionEvent where
  | set (name text : String)
  | unset (name : String)
  | write (path : Path) (text : String)
  | remove (path : Path)
  | make (path? : Option Path)
  | share
  | drop

/-- Whether an event makes, shares or drops a settings object. -/
def SessionEvent.concernsObjects : SessionEvent → Bool
  | .make _ | .share | .drop => true
  | _ => false

namespace Session

/-- The session after an event, and the settings object that the event gives, if it gives one. -/
def perform (session : Session) : SessionEvent → Option SettingsObject × Session
  | .set name text => (none, session.setVariable name text)
  | .unset name => (none, session.unsetVariable name)
  | .write path text => (none, session.writeFile path text)
  | .remove path => (none, session.removeFile path)
  | .make path? =>
      let (object, next) := session.make (path?.getD Definition.defaultFile)
      (some object, next)
  | .share =>
      let (object, next) := session.shared
      (some object, next)
  | .drop => (none, session.drop)

/-- The session after some events. -/
def after (session : Session) (events : List SessionEvent) : Session :=
  events.foldl (fun session event => (session.perform event).2) session

/-- The file that an event loads: making an object loads one, and sharing does if it has to make
the object. -/
def loaded? (session : Session) : SessionEvent → Option Path
  | .make path? => some (path?.getD Definition.defaultFile)
  | .share => if session.shared?.isNone then some Definition.defaultFile else none
  | _ => none

/-- An event decides the text of a variable, or that it does not exist. -/
inductive Decides (session : Session) (name : String) : SessionEvent → Option String → Prop
  | set (text : String) : Decides session name (.set name text) (some text)
  | unset : Decides session name (.unset name) none
  | load {event : SessionEvent} {path : Path} {text : String}
      (absent : session.environment.get? name = none) (loads : session.loaded? event = some path)
      (offered : session.environment.offered? session.files path name = some text) :
      Decides session name event (some text)

/-- None of some events decides the text of a variable. -/
def Untouched (session : Session) (name : String) (events : List SessionEvent) : Prop :=
  ∀ before event behind, events = before ++ event :: behind → ∀ text?,
    ¬ (session.after before).Decides name event text?

/-- The text that some events leave a variable with: what the last event gave it that decided its
text, or the one that it had. -/
def Leaves (session : Session) (name : String) (events : List SessionEvent)
    (text? : Option String) : Prop :=
  session.Untouched name events ∧ text? = session.environment.get? name ∨
    ∃ before event behind, events = before ++ event :: behind ∧
      (session.after before).Decides name event text? ∧
      (session.after (before ++ [event])).Untouched name behind

variable {session : Session} {name : String} {event : SessionEvent} {events : List SessionEvent}
  {text? : Option String}

@[simp] theorem after_append (session : Session) (earlier later : List SessionEvent) :
    session.after (earlier ++ later) = (session.after earlier).after later :=
  List.foldl_append

theorem after_singleton (session : Session) (event : SessionEvent) :
    session.after [event] = (session.perform event).2 :=
  rfl

/-- An event that loads a file leaves the environment with the file loaded. -/
theorem environment_perform_of_loaded {path : Path} (loads : session.loaded? event = some path) :
    (session.perform event).2.environment = session.environment.loadFile session.files path := by
  cases event with
  | make path? =>
      cases loads
      rfl
  | share =>
      cases held : session.shared? with
      | none =>
          rw [loaded?, held] at loads
          cases loads
          simp only [perform, shared, held, make]
      | some object => simp [loaded?, held] at loads
  | set | unset | write | remove | drop => cases loads

/-- Only setting, unsetting and loading change the environment. -/
theorem environment_perform_of_not_loaded (loads : session.loaded? event = none) :
    (session.perform event).2.environment =
      match event with
      | .set name text => session.environment.set name text
      | .unset name => session.environment.unset name
      | _ => session.environment := by
  cases event with
  | share =>
      cases held : session.shared? with
      | none => simp [loaded?, held] at loads
      | some object => simp only [perform, shared, held]
  | make => cases loads
  | set | unset | write | remove | drop => rfl

/-- A variable has the text that an event decides. -/
theorem Decides.get?_perform (decides : session.Decides name event text?) :
    (session.perform event).2.environment.get? name = text? := by
  cases decides with
  | set text => rw [environment_perform_of_not_loaded rfl]; simp
  | unset => rw [environment_perform_of_not_loaded rfl]; simp
  | load absent loads offered =>
      rw [environment_perform_of_loaded loads, Environment.get?_loadFile, absent, offered]
      rfl

/-- An event that does not decide the text of a variable keeps it. -/
theorem get?_perform_of_not_decides (undecided : ∀ text?, ¬ session.Decides name event text?) :
    (session.perform event).2.environment.get? name = session.environment.get? name := by
  cases loads : session.loaded? event with
  | some path =>
      rw [environment_perform_of_loaded loads, Environment.get?_loadFile]
      cases absent : session.environment.get? name with
      | some text => rfl
      | none =>
          cases offered : session.environment.offered? session.files path name with
          | none => rfl
          | some text => exact (undecided _ (.load absent loads offered)).elim
  | none =>
      rw [environment_perform_of_not_loaded loads]
      cases event with
      | set other text =>
          have different : name ≠ other := by
            rintro rfl
            exact undecided _ (.set text)
          simp [different]
      | unset other =>
          have different : name ≠ other := by
            rintro rfl
            exact undecided _ .unset
          simp [different]
      | write | remove | make | share | drop => rfl

theorem untouched_append_singleton : session.Untouched name (events ++ [event]) ↔
    session.Untouched name events ∧
      ∀ text?, ¬ (session.after events).Decides name event text? := by
  constructor
  · intro untouched
    refine ⟨fun before other behind split => ?_, untouched events event [] rfl⟩
    exact untouched before other (behind ++ [event]) (by simp [split])
  · rintro ⟨untouched, undecided⟩ before other behind split
    rcases List.eq_nil_or_concat behind with rfl | ⟨between, last, rfl⟩
    · obtain ⟨rfl, same⟩ := List.append_inj' split rfl
      cases same
      exact undecided
    · rw [List.concat_eq_append, ← List.cons_append, ← List.append_assoc] at split
      exact untouched before other between (List.append_inj' split rfl).1

/-- Events that do not decide the text of a variable keep it. -/
theorem Untouched.get?_after (untouched : session.Untouched name events) :
    (session.after events).environment.get? name = session.environment.get? name := by
  induction events using List.reverseRecOn with
  | nil => rfl
  | append_singleton events event ih =>
      obtain ⟨earlier, undecided⟩ := untouched_append_singleton.mp untouched
      rw [after_append, after_singleton, get?_perform_of_not_decides undecided, ih earlier]

/-- A variable has the text that the last event left it with which decided it. -/
theorem leaves_get?_after (session : Session) (name : String) (events : List SessionEvent) :
    session.Leaves name events ((session.after events).environment.get? name) := by
  induction events using List.reverseRecOn with
  | nil => exact Or.inl ⟨fun before _ _ split => by simp at split, rfl⟩
  | append_singleton events event ih =>
      rw [after_append, after_singleton]
      by_cases decided : ∃ text?, (session.after events).Decides name event text?
      · obtain ⟨text?, decides⟩ := decided
        rw [decides.get?_perform]
        exact Or.inr ⟨events, event, [], rfl, decides, fun before _ _ split => by simp at split⟩
      · have undecided := not_exists.mp decided
        rw [get?_perform_of_not_decides undecided]
        rcases ih with ⟨untouched, same⟩ | ⟨before, earlier, behind, split, decides, untouched⟩
        · exact Or.inl ⟨untouched_append_singleton.mpr ⟨untouched, undecided⟩, same⟩
        · refine Or.inr ⟨before, earlier, behind ++ [event], by simp [split], decides, ?_⟩
          refine untouched_append_singleton.mpr ⟨untouched, ?_⟩
          rwa [← after_append, List.append_assoc, List.singleton_append, ← split]

theorem get?_after_iff : (session.after events).environment.get? name = text? ↔
    session.Leaves name events text? := by
  constructor
  · rintro rfl
    exact leaves_get?_after session name events
  · rintro (⟨untouched, rfl⟩ | ⟨before, event, behind, rfl, decides, untouched⟩)
    · exact untouched.get?_after
    · rw [List.append_cons, after_append, untouched.get?_after, after_append, after_singleton,
        decides.get?_perform]

/-- The shared object was made in the session. -/
def SharesMade (session : Session) : Prop :=
  ∀ object, session.shared? = some object → object.number < session.made

theorem SharesMade.perform (made : session.SharesMade) (event : SessionEvent) :
    (session.perform event).2.SharesMade := by
  cases event with
  | set | unset | write | remove => exact made
  | make path? => exact fun object held => Nat.lt_succ_of_lt (made object held)
  | drop => exact fun _ held => by cases held
  | share =>
      cases held : session.shared? with
      | none =>
          intro object same
          simp only [Session.perform, shared, held, make, Option.some.injEq] at same ⊢
          exact same ▸ Nat.lt_succ_self _
      | some object =>
          simp only [Session.perform, shared, held]
          exact made

theorem SharesMade.after (made : session.SharesMade) (events : List SessionEvent) :
    (session.after events).SharesMade := by
  induction events using List.reverseRecOn with
  | nil => exact made
  | append_singleton events event ih =>
      rw [after_append, after_singleton]
      exact ih.perform event

/-- Only dropping takes the shared object away. -/
theorem shared?_perform {object : SettingsObject} (held : session.shared? = some object)
    (stays : event ≠ .drop) : (session.perform event).2.shared? = some object := by
  cases event with
  | drop => exact (stays rfl).elim
  | share => simp only [perform, shared, held]
  | set | unset | write | remove | make => exact held

theorem shared?_after {object : SettingsObject} (held : session.shared? = some object)
    (stays : .drop ∉ events) : (session.after events).shared? = some object := by
  induction events using List.reverseRecOn with
  | nil => exact held
  | append_singleton events event ih =>
      rw [List.mem_append, List.mem_singleton, not_or] at stays
      rw [after_append, after_singleton]
      exact shared?_perform (ih stays.1) (Ne.symm stays.2)

/-- A shared object that is held is given as it is. -/
theorem perform_share_of_held {object : SettingsObject} (held : session.shared? = some object) :
    session.perform .share = (some object, session) := by
  simp only [perform, shared, held]

/-- Whether it is made or not, the object that is shared is held from then on. -/
theorem shared?_perform_share (session : Session) :
    (session.perform .share).2.shared? = (session.perform .share).1 := by
  cases held : session.shared? <;> simp [perform, shared, held]

/-- Settings depend on the texts of four variables and on nothing else. -/
theorem ofEnvironment_congr {first second : Environment}
    (same : ∀ name ∈ Settings.variableNames, first.get? name = second.get? name) :
    Settings.ofEnvironment first = Settings.ofEnvironment second := by
  simp only [Settings.variableNames, List.forall_mem_cons] at same
  obtain ⟨pragma, factory, bases, excluded, -⟩ := same
  simp only [Settings.ofEnvironment, Settings.nonempty, Settings.basesOf, Settings.listed, pragma,
    factory, bases, excluded]

/-- What a session does with settings objects. Making, sharing and dropping them keeps the variables
that exist, and making one adds exactly the other variables that its file has a value for. Sharing
makes an object only if none is held, and gives the same one until it is dropped, while every
object made in between is another one. The values of all objects are those that the environment
gives, wherever else it is the environment. -/
structure Orderly (session : Session) : Prop where
  keeps : ∀ event name text, event.concernsObjects = true →
    session.environment.get? name = some text →
    (session.perform event).2.environment.get? name = some text
  adds : ∀ path? name, (session.perform (.make path?)).2.environment.get? name =
    (session.environment.get? name).or
      (session.environment.offered? session.files (path?.getD Definition.defaultFile) name)
  sharesHeld : ∀ object, session.shared? = some object →
    session.perform .share = (some object, session)
  sharesNew : session.shared? = none → ∃ object, (session.perform (.make none)).1 = some object ∧
    session.perform .share =
      (some object, { (session.perform (.make none)).2 with shared? := some object })
  sharesSame : ∀ later : List SessionEvent, .drop ∉ later →
    (((session.perform .share).2.after later).perform .share).1 = (session.perform .share).1
  makesOther : ∀ path?, (session.perform (.make path?)).1 ≠ session.shared? ∧
    (session.perform (.make path?)).2.shared? = session.shared?
  values : ∀ (other : Session) object otherObject,
    (∀ name ∈ Settings.variableNames,
      other.environment.get? name = session.environment.get? name) →
    other.settingsOf otherObject = session.settingsOf object

/-- A session that shares an object which was made in it is orderly. -/
theorem SharesMade.orderly (made : session.SharesMade) : session.Orderly where
  keeps event name text concerns exists? := by
    rw [get?_perform_of_not_decides, exists?]
    intro text? decides
    cases decides with
    | set | unset => cases concerns
    | load absent => cases absent.symm.trans exists?
  adds path? name := by
    rw [environment_perform_of_loaded rfl, Environment.get?_loadFile]
  sharesHeld _ held := perform_share_of_held held
  sharesNew free := by
    refine ⟨⟨session.made⟩, rfl, ?_⟩
    simp only [Session.perform, shared, free, make]
    rfl
  sharesSame later stays := by
    cases given : (session.perform .share).1 with
    | none => cases given
    | some object =>
        have held := shared?_after ((shared?_perform_share session).trans given) stays
        rw [perform_share_of_held held]
  makesOther path? := by
    refine ⟨fun same => ?_, rfl⟩
    exact Nat.lt_irrefl _ (made ⟨session.made⟩ same.symm)
  values other object otherObject same := ofEnvironment_congr same

/-- **What has happened decides.** After any events, a session is orderly, and the text of each
variable is the one that the events have left it with. -/
theorem orderly_after (environment : Environment) (files : FileSystem)
    (events : List SessionEvent) :
    let begin := start environment files
    (begin.after events).Orderly ∧ ∀ name text?,
      (begin.after events).environment.get? name = text? ↔ begin.Leaves name events text? := by
  intro begin
  have made : begin.SharesMade := fun _ held => by cases held
  exact ⟨(made.after events).orderly, fun name text? => get?_after_iff⟩

/-- A file is loaded and removed, and what it gave stays when the shared object is dropped and made
again. -/
def staleEvents : List SessionEvent :=
  [.write Definition.defaultFile "A=1", .share, .remove Definition.defaultFile, .drop, .share]

theorem orderly_after_staleEvents :
    let begin := start .empty (.ofWorkingDirectory [])
    let session := begin.after staleEvents
    begin.Leaves "A" staleEvents (some "1") ∧
      session.files.definitions Definition.defaultFile = [] ∧
      ((session.after [.make none]).perform .share).1 = (session.perform .share).1 := by
  intro begin session
  obtain ⟨orderly, texts⟩ := orderly_after .empty (.ofWorkingDirectory []) staleEvents
  refine ⟨(texts "A" (some "1")).mp (by decide), by decide, ?_⟩
  have same := orderly.sharesSame [.make none] (by simp)
  rwa [orderly.sharesHeld ⟨1⟩ (by decide)] at same ⊢

end Session

end StaleRead
