import SymbolGraph.Proofs.Locations
import SymbolGraph.Proofs.Wording

/-! Exit statuses of whole runs. Whatever a command is called on, it fails with a complaint, and the complaint decides
    the status. -/

namespace SymbolGraph.Cli

open Index Fallible

/-! ### Running work -/

namespace Work
variable {α β : Type} {x : Work α} {f : α → Work β} {m m' : Machine}

theorem absolute_apply (path : String) (m : Machine) : absolute path m = (.ok (Path.append m.directory path), m) := rfl

theorem orFail_ok {ε : Type} {message : String} {cause : ε → Cause} {r : Except ε α} {a : α} (h : r = .ok a) :
    orFail message cause r m = (.ok a, m) := by
  subst h
  rfl

theorem orFail_error {ε : Type} {message : String} {cause : ε → Cause} {r : Except ε α} {e : ε} (h : r = .error e) :
    orFail message cause r m = (.error ⟨message, cause e⟩, m) := by
  subst h
  rfl

/-- However the work ends, its result or its failure is of the kind. -/
structure Yields (P : α → Prop) (Q : Failure → Prop) (x : Work α) : Prop where
  ends : ∀ m, match (x m).1 with
    | .ok a => P a
    | .error e => Q e

namespace Yields
variable {P : β → Prop} {R : α → Prop} {Q : Failure → Prop}

theorem pure {a : α} (h : R a) : Yields R Q (Pure.pure a) := ⟨fun _ => h⟩

theorem throw {e : Failure} (h : Q e) : Yields R Q (throw e : Work α) := ⟨fun _ => h⟩

theorem get : Yields (fun _ => True) Q (get : Work Machine) := ⟨fun _ => trivial⟩

theorem set (m : Machine) : Yields (fun _ => True) Q (set m : Work Unit) := ⟨fun _ => trivial⟩

theorem modify (g : Machine → Machine) : Yields (fun _ => True) Q (modify g : Work Unit) := ⟨fun _ => trivial⟩

theorem orFail {ε : Type} {message : String} {cause : ε → Cause} {r : Except ε α} (hok : ∀ a, r = .ok a → R a)
    (herror : ∀ e, r = .error e → Q ⟨message, cause e⟩) : Yields R Q (orFail message cause r) := by
  cases r with
  | ok a => exact pure (hok a rfl)
  | error e => exact throw (herror e rfl)

theorem bind (hx : Yields R Q x) (hf : ∀ a, R a → Yields P Q (f a)) : Yields P Q (x >>= f) := by
  refine ⟨fun m => ?_⟩
  have h := hx.ends m
  rw [bind_apply]
  rcases hm : x m with ⟨e | a, m'⟩
  · rw [hm] at h
    exact h
  · rw [hm] at h
    exact (hf a h).ends m'

theorem after (hx : Yields (fun _ => True) Q x) (hf : ∀ a, Yields P Q (f a)) : Yields P Q (x >>= f) :=
  hx.bind fun a _ => hf a

/-- Work that is given up where something holds. -/
theorem givenUp {c : Prop} [Decidable c] {e : Failure} {rest : α → Work β} {go : Work β} (he : Q e)
    (hgo : Yields P Q go) : Yields P Q (if c then (MonadExcept.throw e : Work α) >>= rest else go) := by
  split
  · exact (throw (R := fun _ => False) he).bind fun _ hnever => hnever.elim
  · exact hgo

end Yields
end Work

/-! ### Every failure is a complaint -/

/-- The failure is that of a complaint. -/
def Complains (f : Failure) : Prop := ∃ c : Complaint, c.failure = f

open Work

theorem Complaint.complains (c : Complaint) : Complains c.failure := ⟨c, rfl⟩

theorem path_of_canonical {d : Disk} {path root : String} (h : d.canonical path = .ok root) :
    ∃ at_ : Disk.Location, root = at_.path := by
  obtain ⟨at_, -, h⟩ := exists_of_bind h
  split at h
  · cases h
  · cases h
    exact ⟨at_, rfl⟩

theorem canonicalRoot_yields (path : String) :
    Yields (fun root => ∃ at_ : Disk.Location, root = at_.path) Complains (canonicalRoot path) := by
  unfold canonicalRoot
  refine Yields.get.after fun m => ?_
  refine Yields.after (Yields.get.after fun _ => .pure trivial) fun absolute => ?_
  exact .orFail (fun root hroot => path_of_canonical hroot) fun e _ => (Complaint.nowhere path e).complains

theorem openWorkspace_yields (path : String) : Yields (fun _ => True) Complains (openWorkspace path) := by
  unfold openWorkspace
  refine (canonicalRoot_yields path).bind fun root ⟨at_, hroot⟩ => ?_
  subst hroot
  refine Yields.get.after fun m => ?_
  refine Yields.givenUp (Complaint.notSetUp at_).complains ?_
  refine Yields.get.after fun m => ?_
  refine Yields.after ?_ fun config => .pure trivial
  exact .orFail (fun _ _ => trivial) fun e _ => (Complaint.settings _ e).complains

namespace Opened

theorem openDatabase_error {d d' : Disk} {path : String} {e : Error} (h : openDatabase d path = (d', .error e)) :
    (∃ cause, e = .io cause) ∨ ∃ cause, e = .store cause := by
  unfold openDatabase at h
  split at h
  · cases h
    exact .inl ⟨_, rfl⟩
  · split at h
    · cases h
      exact .inr ⟨_, rfl⟩
    · split at h
      · cases h
        exact .inr ⟨_, rfl⟩
      · cases h

theorem database_yields (o : Opened) : Yields (fun _ => True) Complains o.database := by
  unfold database
  refine Yields.get.after fun m => ?_
  rcases hopen : openDatabase m.disk o.databasePath with ⟨disk, result⟩
  refine (Yields.set _).after fun _ => .orFail (fun _ _ => trivial) fun e he => ?_
  subst he
  rcases openDatabase_error hopen with ⟨cause, rfl⟩ | ⟨cause, rfl⟩
  · exact (Complaint.noPlace o.databasePath cause).complains
  · exact (Complaint.store _ cause).complains

theorem existingStore_yields (o : Opened) : Yields (fun _ => True) Complains o.existingStore := by
  unfold existingStore
  refine Yields.get.after fun m => .givenUp (Complaint.noDatabase o.databasePath).complains ?_
  exact o.database_yields.after fun b => (Yields.modify _).after fun _ => .pure trivial

theorem run_yields {α : Type} (o : Opened) (work : Workspace → Action α) :
    Yields (fun _ => True) Complains (o.run "Indexing failed" work) := by
  unfold run
  refine o.database_yields.after fun b => Yields.get.after fun m => ?_
  cases Workspace.load m.disk o.root o.config with
  | error e => exact (Yields.modify _).after fun _ => .throw (Complaint.work .loadRules e).complains
  | ok w =>
    exact (Yields.modify _).after fun _ => .orFail (fun _ _ => trivial) fun e _ => (Complaint.work .index e).complains

end Opened

theorem orStore_yields {α : Type} (message : String) (r : Except StoreError α) :
    Yields (fun _ => True) Complains (orFail message .index (r.mapError Error.store)) := by
  cases r with
  | ok a => exact .pure trivial
  | error e => exact .throw (Complaint.store message e).complains

theorem printAll_yields (texts : List String) : Yields (fun _ => True) Complains (printAll texts) := .modify _

theorem printed_yields (quiet : Bool) (texts : List String) :
    Yields (fun _ => True) Complains (if !quiet then printAll texts else Pure.pure ()) := by
  cases quiet with
  | false => exact printAll_yields texts
  | true => exact .pure trivial

theorem indexAll_yields (o : Opened) (quiet : Bool) : Yields (fun _ => True) Complains (indexAll o quiet) := by
  unfold indexAll
  exact (o.run_yields _).after fun stats => printed_yields quiet _

theorem runInit_yields (path : String) (languages databasePath : Option String) (force noIndex quiet : Bool) :
    Yields (fun _ => True) Complains (runInit path languages databasePath force noIndex quiet) := by
  unfold runInit
  refine (canonicalRoot_yields path).bind fun root ⟨at_, hroot⟩ => ?_
  subst hroot
  refine Yields.get.after fun m => .givenUp (Complaint.alreadySetUp at_).complains ?_
  refine Yields.after (.orFail (fun _ _ => trivial) fun e _ => (Complaint.settings _ e).complains) fun _ => ?_
  refine Yields.get.after fun m => ?_
  refine Yields.after (.orFail (fun _ _ => trivial) fun e _ => (Complaint.settings _ e).complains) fun disk => ?_
  refine (Yields.modify _).after fun _ => ?_
  have hindex : Yields (fun _ => True) Complains
      (if !noIndex then do indexAll (← openWorkspace at_.path) quiet else Pure.pure ()) := by
    cases noIndex with
    | false => exact (openWorkspace_yields at_.path).after fun o => indexAll_yields o quiet
    | true => exact .pure trivial
  cases quiet with
  | false => exact (printAll_yields _).after fun _ => hindex
  | true => exact hindex

theorem run_yields (i : Invocation) : Yields (fun _ => True) Complains i.run := by
  unfold Invocation.run
  cases i.command with
  | init path languages databasePath force noIndex => exact runInit_yields _ _ _ _ _ _
  | index path files =>
    unfold runIndex
    refine (openWorkspace_yields path).after fun o => ?_
    cases files with
    | nil => exact indexAll_yields o i.quiet
    | cons file files => exact (o.run_yields _).after fun stats => printed_yields i.quiet _
  | watch path debounce =>
    unfold runWatch
    refine (openWorkspace_yields path).after fun o => ?_
    exact (Opened.run_yields _ _).after fun stats => printed_yields i.quiet _
  | status path json =>
    unfold runStatus
    refine (openWorkspace_yields path).after fun o => o.existingStore_yields.after fun store => ?_
    refine (orStore_yields _ _).after fun stats => ?_
    cases json with
    | false => exact printAll_yields _
    | true => exact printAll_yields _
  | graph path top =>
    unfold runGraph
    refine (openWorkspace_yields path).after fun o => o.existingStore_yields.after fun store => ?_
    exact (orStore_yields _ _).after fun view => printAll_yields _

/-! ### What commands meet -/

namespace Command

/-- The path of the workspace that a command is called on. -/
def path : Command → String
  | init path _ _ _ _ => path
  | index path _ => path
  | watch path _ => path
  | status path _ => path
  | graph path _ => path

/-- Whether the command works on a workspace that was set up before. -/
def opens : Command → Bool
  | init _ _ _ _ _ => false
  | _ => true

/-- Whether the command only reads what was indexed before. -/
def reads : Command → Bool
  | status _ _ => true
  | graph _ _ => true
  | _ => false

end Command

namespace Machine

/-- The path leads to the location. -/
def LeadsTo (m : Machine) (path : String) (root : Disk.Location) : Prop :=
  m.disk.canonical (Path.append m.directory path) = .ok root.path

/-- A workspace at the location was set up. -/
def IsSetUp (m : Machine) (root : Disk.Location) : Prop :=
  m.disk.exists (Path.append root.path Config.stateDirectory) = true

/-- The path leads to a workspace that was set up and has the settings. -/
structure Opens (m : Machine) (path : String) (root : Disk.Location) (config : Config) : Prop where
  leads : m.LeadsTo path root
  setUp : m.IsSetUp root
  settings : Config.load m.disk root.path = .ok config

end Machine

/-- What keeps a command on a machine from its work. -/
inductive Meets (m : Machine) : Command → Complaint → Prop where
  | nowhere {command : Command} {cause : IoError}
      (nothing : m.disk.canonical (Path.append m.directory command.path) = .error cause) :
      Meets m command (.nowhere command.path cause)
  | notSetUp {command : Command} {root : Disk.Location} (opens : command.opens)
      (leads : m.LeadsTo command.path root) (missing : ¬m.IsSetUp root) : Meets m command (.notSetUp root)
  /-- The settings are malformed or of no use. -/
  | settings {command : Command} {root : Disk.Location} {cause : ConfigError} (opens : command.opens)
      (leads : m.LeadsTo command.path root) (setUp : m.IsSetUp root)
      (bad : Config.load m.disk root.path = .error cause) : Meets m command (.settings "Cannot load config" cause)
  | noDatabase {command : Command} {root : Disk.Location} {config : Config} (reads : command.reads)
      (opens : m.Opens command.path root config) (missing : m.disk.exists (config.databasePath root.path) = false) :
      Meets m command (.noDatabase (config.databasePath root.path))
  /-- A line of the ignore file is no rule, or the file cannot be read. -/
  | rules {path : String} {files : List String} {root : Disk.Location} {config : Config} {disk : Disk}
      {database : Opened.Database} {cause : Error} (opens : m.Opens path root config)
      (opened : Opened.openDatabase m.disk (config.databasePath root.path) = (disk, .ok database))
      (bad : Workspace.load disk root.path config = .error cause) :
      Meets m (.index path files) (.work .loadRules cause)

section
variable {m : Machine} {path : String} {root : Disk.Location} {config : Config}

theorem canonicalRoot_ok (h : m.LeadsTo path root) : canonicalRoot path m = (.ok root.path, m) := by
  unfold canonicalRoot
  rw [bind_ok (get_apply m), bind_ok (absolute_apply path m)]
  exact orFail_ok h

theorem canonicalRoot_error {cause : IoError} (h : m.disk.canonical (Path.append m.directory path) = .error cause) :
    canonicalRoot path m = (.error (Complaint.nowhere path cause).failure, m) := by
  unfold canonicalRoot
  rw [bind_ok (get_apply m), bind_ok (absolute_apply path m)]
  exact orFail_error h

theorem openWorkspace_nowhere {cause : IoError}
    (h : m.disk.canonical (Path.append m.directory path) = .error cause) :
    openWorkspace path m = (.error (Complaint.nowhere path cause).failure, m) := by
  unfold openWorkspace
  exact bind_error (canonicalRoot_error h)

theorem openWorkspace_notSetUp (hleads : m.LeadsTo path root) (hmissing : ¬m.IsSetUp root) :
    openWorkspace path m = (.error (Complaint.notSetUp root).failure, m) := by
  have hexists : (!m.disk.exists (Path.append root.path Config.stateDirectory)) = true := by
    simpa [Machine.IsSetUp] using hmissing
  unfold openWorkspace
  rw [bind_ok (canonicalRoot_ok hleads), bind_ok (get_apply m), if_pos hexists]
  exact bind_error (throw_apply _ m)

/-- Where a workspace was set up, its settings are all that can be wrong with it. -/
theorem openWorkspace_setUp (hleads : m.LeadsTo path root) (hsetUp : m.IsSetUp root) :
    openWorkspace path m = (do
      let config ← orFail "Cannot load config" .config (Config.load m.disk root.path)
      return ⟨root.path, config⟩ : Work Opened) m := by
  have hexists : ¬(!m.disk.exists (Path.append root.path Config.stateDirectory)) = true := by
    rw [hsetUp]
    decide
  unfold openWorkspace
  rw [bind_ok (canonicalRoot_ok hleads), bind_ok (get_apply m), if_neg hexists]
  exact bind_ok (get_apply m)

theorem openWorkspace_settings {cause : ConfigError} (hleads : m.LeadsTo path root) (hsetUp : m.IsSetUp root)
    (hbad : Config.load m.disk root.path = .error cause) :
    openWorkspace path m = (.error (Complaint.settings "Cannot load config" cause).failure, m) := by
  rw [openWorkspace_setUp hleads hsetUp]
  exact bind_error (orFail_error hbad)

theorem openWorkspace_ok (h : m.Opens path root config) : openWorkspace path m = (.ok ⟨root.path, config⟩, m) := by
  rw [openWorkspace_setUp h.leads h.setUp, bind_ok (orFail_ok h.settings)]
  rfl

theorem existingStore_missing {o : Opened} (h : m.disk.exists o.databasePath = false) :
    o.existingStore m = (.error (Complaint.noDatabase o.databasePath).failure, m) := by
  have hmissing : (!m.disk.exists o.databasePath) = true := by
    rw [h]
    decide
  unfold Opened.existingStore
  rw [bind_ok (get_apply m), if_pos hmissing]
  exact bind_error (throw_apply _ m)

theorem run_rules {α : Type} {o : Opened} {message : String} {work : Workspace → Action α} {disk : Disk}
    {database : Opened.Database} {cause : Error}
    (hopened : Opened.openDatabase m.disk o.databasePath = (disk, .ok database))
    (hbad : Workspace.load disk o.root o.config = .error cause) :
    o.run message work m = (.error (Complaint.work .loadRules cause).failure,
      { m with disk := disk.closeStore database.location database.store }) := by
  have hdatabase : o.database m = (.ok database, { m with disk }) := by
    unfold Opened.database
    rw [bind_ok (get_apply m), hopened]
    exact (bind_ok (set_apply m _)).trans (orFail_ok rfl)
  have hclose : database.close { m with disk } =
      (.ok (), { m with disk := disk.closeStore database.location database.store }) := rfl
  unfold Opened.run
  rw [bind_ok hdatabase, bind_ok (get_apply _), hbad]
  exact (bind_ok hclose).trans (throw_apply _ _)

/-- A command that works on a workspace opens it first. -/
theorem run_opens {i : Invocation} (h : i.command.opens) :
    ∃ rest : Opened → Work Unit, i.run = openWorkspace i.command.path >>= rest := by
  unfold Invocation.run
  cases hc : i.command with
  | init path languages databasePath force noIndex =>
    rw [hc] at h
    cases h
  | index path files => exact ⟨_, rfl⟩
  | watch path debounce => exact ⟨_, rfl⟩
  | status path json => exact ⟨_, rfl⟩
  | graph path top => exact ⟨_, rfl⟩

/-- A command that reads an index opens the workspace and then the database that has to be there. -/
theorem run_reads {i : Invocation} (h : i.command.reads) :
    ∃ rest : Opened → Store → Work Unit,
      i.run = openWorkspace i.command.path >>= fun o => o.existingStore >>= rest o := by
  unfold Invocation.run
  cases hc : i.command with
  | init | index | watch =>
    rw [hc] at h
    cases h
  | status path json => exact ⟨_, rfl⟩
  | graph path top => exact ⟨_, rfl⟩

theorem runIndex_rules {files : List String} {quiet : Bool} {disk : Disk} {database : Opened.Database} {cause : Error}
    (hopens : m.Opens path root config)
    (hopened : Opened.openDatabase m.disk (config.databasePath root.path) = (disk, .ok database))
    (hbad : Workspace.load disk root.path config = .error cause) :
    (runIndex path files quiet m).1 = .error (Complaint.work .loadRules cause).failure := by
  have hrun (work : Workspace → Action Stats) :
      (⟨root.path, config⟩ : Opened).run "Indexing failed" work m =
        (.error (Complaint.work .loadRules cause).failure,
          { m with disk := disk.closeStore database.location database.store }) := run_rules hopened hbad
  unfold runIndex
  rw [bind_ok (openWorkspace_ok hopens)]
  split
  · unfold indexAll
    rw [bind_error (hrun _)]
  · rw [bind_error (hrun _)]

theorem runInit_nowhere {languages databasePath : Option String} {force noIndex quiet : Bool} {cause : IoError}
    (h : m.disk.canonical (Path.append m.directory path) = .error cause) :
    runInit path languages databasePath force noIndex quiet m = (.error (Complaint.nowhere path cause).failure, m) := by
  unfold runInit
  rw [bind_error (canonicalRoot_error h)]

theorem run_of_meets {i : Invocation} {c : Complaint} (h : Meets m i.command c) : (i.run m).1 = .error c.failure := by
  obtain ⟨command, quiet⟩ := i
  dsimp only at h
  cases h with
  | nowhere nothing =>
    cases hopens : command.opens with
    | true =>
      obtain ⟨rest, hrun⟩ := run_opens (i := ⟨command, quiet⟩) hopens
      rw [hrun, bind_error (openWorkspace_nowhere nothing)]
    | false =>
      -- Only setting up a workspace does not open one.
      cases command with
      | init path languages databasePath force noIndex => exact congrArg Prod.fst (runInit_nowhere nothing)
      | index | watch | status | graph => cases hopens
  | notSetUp opens leads missing =>
    obtain ⟨rest, hrun⟩ := run_opens (i := ⟨command, quiet⟩) opens
    rw [hrun, bind_error (openWorkspace_notSetUp leads missing)]
  | settings opens leads setUp bad =>
    obtain ⟨rest, hrun⟩ := run_opens (i := ⟨command, quiet⟩) opens
    rw [hrun, bind_error (openWorkspace_settings leads setUp bad)]
  | @noDatabase _ root config reads opens missing =>
    have hstore : (⟨root.path, config⟩ : Opened).existingStore m =
        (.error (Complaint.noDatabase (config.databasePath root.path)).failure, m) := existingStore_missing missing
    obtain ⟨rest, hrun⟩ := run_reads (i := ⟨command, quiet⟩) reads
    rw [hrun, bind_ok (openWorkspace_ok opens), bind_error hstore]
  | rules opens opened bad => exact runIndex_rules opens opened bad

end

/-! ### Statuses -/

theorem Outcome.status_inj {a b : Outcome} : a.status = b.status ↔ a = b := by
  cases a <;> cases b <;> decide

theorem runArgs_ok {m : Machine} {args : List String} {i : Invocation} (h : invocation args = .ok i) :
    (runArgs m args).1 = match (i.run m).1 with
      | .ok () => .success
      | .error f => .failed f := by
  simp only [runArgs, h]
  rcases i.run m with ⟨_ | _, _⟩ <;> rfl

/-- Every run that fails does so with a complaint, and so it does where something keeps a command from its work. A
    complaint leads to the status of its kind unless the path or the line that it quotes has a word in it that is
    looked for before those of the kind, and only these words of a quotation make a difference. -/
theorem exit_status_swayed_by_quotations {m : Machine} {args : List String} {i : Invocation}
    (h : invocation args = .ok i) :
    (∀ f, (runArgs m args).1 = .failed f → ∃ c : Complaint, c.failure = f) ∧
      (∀ c, Meets m i.command c → (runArgs m args).1 = .failed c.failure) ∧
      (∀ c : Complaint, (Ending.failed c.failure).status = (c.kind.swayedBy c.quoted).status ∧
        ((Ending.failed c.failure).status = c.kind.status ↔ ∀ w ∈ c.kind.decoys, ¬Mentions c.quoted w.1)) ∧
      ∀ c c' : Complaint, c.kind = c'.kind →
        (∀ w ∈ c.kind.decoys, Mentions c.quoted w.1 ↔ Mentions c'.quoted w.1) →
        (Ending.failed c.failure).status = (Ending.failed c'.failure).status := by
  have hstatus : ∀ c : Complaint, (Ending.failed c.failure).status = (c.kind.swayedBy c.quoted).status := fun c =>
    congrArg Outcome.status c.outcome_failure
  refine ⟨fun f hf => ?_, fun c hc => ?_, fun c => ⟨hstatus c, ?_⟩, fun c c' hkind hquoted => ?_⟩
  · have hyields := (run_yields i).ends m
    rw [runArgs_ok h] at hf
    cases hrun : (i.run m).1 with
    | ok a =>
      rw [hrun] at hf
      cases hf
    | error e =>
      rw [hrun] at hf hyields
      cases hf
      exact hyields
  · rw [runArgs_ok h, run_of_meets hc]
  · rw [hstatus, Outcome.status_inj, Outcome.swayedBy_eq_self]
  · rw [hstatus, hstatus, ← hkind, Outcome.swayedBy_congr hquoted]

/-- A directory that was set up and not yet indexed, and whose name is a word that is looked for. -/
def namedConfig : Machine :=
  { disk := { entries := [(["config"], .directory), (["config", ".tessera"], .directory)] } }

theorem namedConfig_opens : namedConfig.Opens "config" ["config"] {} where
  leads := by
    unfold Machine.LeadsTo
    decide +kernel
  setUp := by
    unfold Machine.IsSetUp
    decide +kernel
  settings := by decide +kernel

/-- The database is missing, and the name of the directory makes that a fault of the settings. -/
theorem missing_database_below_config :
    ∃ c, Meets namedConfig (.status "config" false) c ∧ c.kind.status = 4 ∧
      (runArgs namedConfig ["status", "config"]).1.status = 2 := by
  have hargs : invocation ["status", "config"] = .ok ⟨.status "config" false, false⟩ := by decide +kernel
  have hmissing : namedConfig.disk.exists (({} : Config).databasePath (Disk.Location.path ["config"])) = false := by
    decide +kernel
  have hmeets : Meets namedConfig (.status "config" false) _ := .noDatabase rfl namedConfig_opens hmissing
  have hswayed :
      Outcome.database.swayedBy (({} : Config).databasePath (Disk.Location.path ["config"])) = .badConfig := by
    decide +kernel
  obtain ⟨-, hfailed, hstatus, -⟩ := exit_status_swayed_by_quotations (m := namedConfig) hargs
  refine ⟨_, hmeets, rfl, ?_⟩
  rw [hfailed _ hmeets, (hstatus _).1]
  exact congrArg Outcome.status hswayed

end SymbolGraph.Cli
