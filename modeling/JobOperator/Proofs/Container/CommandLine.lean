import JobOperator.Api.Submission
import JobOperator.Container.Podman
import JobOperator.Proofs.Table

/-!
# Command lines as the host reads them

The host is asked by a list of arguments, and what it is asked is what it makes of them. It reads
options for as long as an argument begins with a hyphen; the first one that does not is the image,
and whatever stands behind it is for the container. Names, images and the values of variables are
texts of the users, and any of them might look like an option.

* `Podman.scan`, `Podman.read?`: what the host makes of a command line that runs a container.
* `Podman.Intact`: this is what was meant for a worker.
* `Podman.scan_tableArguments`: a table arrives as it was, whatever its values are.
* `Podman.run_intact_iff`: what was meant for a worker arrives exactly if its image **does not begin
  with a hyphen**.
* `Podman.not_run_intact`: a job whose image does so may well be submitted.
-/

namespace JobOperator.Podman

/-! ## What the host makes of a command line -/

/-- The options that take the next argument. -/
inductive Flag where
  | name
  | label
  | env
  | processors
  | memory

/-- The word for an option. -/
def Flag.word : Flag → String
  | name => "--name"
  | label => "--label"
  | env => "-e"
  | processors => "--cpus"
  | memory => "--memory"

/-- The option that a word stands for. -/
def Flag.ofWord? : String → Option Flag
  | "--name" => some name
  | "--label" => some label
  | "-e" => some env
  | "--cpus" => some processors
  | "--memory" => some memory
  | _ => none

/-- What the options say. -/
structure Options where
  /-- nobody waits for the end of the container -/
  detached : Bool := false
  name : Option String := none
  labels : Table String := ∅
  env : Table String := ∅
  processors : Option String := none
  memory : Option String := none

/-- What a command line asks for. -/
structure Request where
  options : Options
  image : String
  /-- what is left over -/
  rest : List String

/-- An argument that begins like an option. -/
def looksLikeOption (argument : String) : Bool := argument.toList.head? = some '-'

/-- A name and its value, on the two sides of the first equality sign. -/
def assignment? (argument : String) : Option (String × String) :=
  let name := argument.toList.takeWhile (· ≠ '=')
  match argument.toList.dropWhile (· ≠ '=') with
  | _ :: value => if name = [] then none else some (String.ofList name, String.ofList value)
  | [] => none

/-- An option with its argument. Of two that say the same the later counts. -/
def Options.take (options : Options) : Flag → String → Option Options
  | .name, argument => some { options with name := some argument }
  | .label, argument =>
    (assignment? argument).map fun e => { options with labels := options.labels.insert e.1 e.2 }
  | .env, argument =>
    (assignment? argument).map fun e => { options with env := options.env.insert e.1 e.2 }
  | .processors, argument => some { options with processors := some argument }
  | .memory, argument => some { options with memory := some argument }

/-- Reads the options up to the image. An option that is not known is refused. -/
def scan (options : Options) : List String → Option Request
  | [] => none
  | argument :: rest =>
    if looksLikeOption argument then
      if argument = "-d" then scan { options with detached := true } rest
      else match Flag.ofWord? argument with
        | none => none
        | some flag => match rest with
          | [] => none
          | value :: rest => (options.take flag value).bind fun options => scan options rest
    else some ⟨options, argument, rest⟩

/-- Reads a command line that runs a container. -/
def read? : Invocation → Option Request
  | "run" :: arguments => scan {} arguments
  | _ => none

/-! ## What is meant -/

/-- The variables that tell a worker of its job. -/
def ownVariables (job : Job) : List (String × String) :=
  [("JOB_NAME", job.name), ("JOB_UID", job.uid.render), ("BACKEND_NAME", job.spec.backendName),
    ("SHOTS", toString job.spec.shots.toNat), ("CIRCUITS", job.spec.circuits),
    ("WORKER_IMAGE", job.spec.workerImage), ("ATTEMPT", toString job.status.retries.toNat)]

/-- What is asked for is a container for the job's current attempt. -/
structure Intact (t : Worker.Template) (job : Job) (request : Request) : Prop where
  detached : request.options.detached = true
  name : request.options.name = some (Worker.nameOf job)
  labels : request.options.labels = .ofList
    [("app", "aerjob-worker"), ("aerjob.io/managed", "true"), ("aerjob.io/job", job.name)]
  /-- the variables that tell of the job stand above all others -/
  own : ∀ e ∈ ownVariables job, request.options.env.get? e.1 = some e.2
  common : ∀ key ∉ (ownVariables job).map (·.1),
    request.options.env.get? key = t.extraEnv.get? key
  processors : request.options.processors =
    (job.spec.resources.limits.cpu.or (some "2")).bind Quantity.processors?
  memory : request.options.memory =
    (job.spec.resources.limits.memory.or (some "2Gi")).bind Quantity.memory?
  image : request.image = job.spec.workerImage
  rest : request.rest = []

/-- What can be the name of a variable. -/
def Speakable (name : String) : Prop := name ≠ "" ∧ '=' ∉ name.toList

instance (name : String) : Decidable (Speakable name) := inferInstanceAs (Decidable (_ ∧ _))

variable {options : Options} {rest : List String} {image : String}

/-! ## Options, one by one -/

theorem Flag.ofWord?_word (flag : Flag) : ofWord? flag.word = some flag := by
  cases flag <;> rfl

theorem Flag.looksLikeOption_word (flag : Flag) : looksLikeOption flag.word = true := by
  cases flag <;> decide

theorem Flag.word_ne (flag : Flag) : flag.word ≠ "-d" := by
  cases flag <;> decide

theorem scan_detached :
    scan options ("-d" :: rest) = scan { options with detached := true } rest := by
  rw [scan, if_pos (by decide), if_pos rfl]

/-- Whatever stands behind such an option belongs to it, also if it looks like an option. -/
theorem scan_flag (flag : Flag) (value : String) : scan options (flag.word :: value :: rest) =
    (options.take flag value).bind fun options => scan options rest := by
  rw [scan, if_pos flag.looksLikeOption_word, if_neg flag.word_ne, flag.ofWord?_word]

theorem scan_image (h : looksLikeOption image = false) :
    scan options (image :: rest) = some ⟨options, image, rest⟩ := by
  rw [scan, h]
  rfl

/-- With nothing behind it, what looks like an option is no image. -/
theorem scan_option (h : looksLikeOption image = true) : scan options [image] = none := by
  rw [scan, if_pos h]
  split
  · rfl
  · cases Flag.ofWord? image <;> rfl

/-- A name ends at the first equality sign, and the value may hold more of them. -/
theorem assignment?_append {name : String} (h : Speakable name) (value : String) :
    assignment? (name ++ "=" ++ value) = some (name, value) := by
  obtain ⟨hne, hsign⟩ := h
  have hname : ∀ c ∈ name.toList, (decide (c ≠ '=')) = true := fun c hc =>
    decide_eq_true fun heq => hsign (heq ▸ hc)
  have htext : (name ++ "=" ++ value).toList = name.toList ++ '=' :: value.toList := by
    simp [String.toList_append]
  have hnil : name.toList ≠ [] := fun hnil => hne (String.toList_inj.mp hnil)
  simp only [assignment?, htext, List.takeWhile_append_of_pos hname,
    List.dropWhile_append_of_pos hname]
  simp [hnil]

/-! ## Tables -/

/-- A table arrives as it was, entry by entry, whatever its values are. -/
theorem scan_tableArguments (flag : Flag) {table : Table String} (filled : Table String → Options)
    (takes : ∀ t argument, (filled t).take flag argument =
      (assignment? argument).map fun e => filled (t.insert e.1 e.2))
    (speakable : ∀ e ∈ table.toList, Speakable e.1) :
    scan (filled ∅) (tableArguments flag.word table ++ rest) = scan (filled table) rest := by
  have hentries : ∀ entries : List (String × String), (∀ e ∈ entries, Speakable e.1) → ∀ t,
      scan (filled t) ((entries.flatMap fun e => [flag.word, e.1 ++ "=" ++ e.2]) ++ rest) =
        scan (filled (entries.foldl (fun t e => t.insert e.1 e.2) t)) rest := by
    intro entries hspeakable
    induction entries with
    | nil => exact fun _ => rfl
    | cons e entries ih =>
      obtain ⟨hfirst, hlater⟩ := List.forall_mem_cons.mp hspeakable
      intro t
      rw [List.foldl_cons, ← ih hlater, List.flatMap_cons, List.append_assoc, List.cons_append,
        List.cons_append, List.nil_append, scan_flag, takes, assignment?_append hfirst]
      rfl
  have hall := hentries table.toList speakable ∅
  rw [Table.foldl_insert_perm (.refl _)] at hall
  exact hall

/-- The limits arrive as far as there are any, and the image is what stands behind them. -/
theorem scan_resourceArguments (resources : Resources) :
    scan options (resourceArguments resources ++ rest) = scan { options with
      processors := (resources.limits.cpu.bind Quantity.processors?).or options.processors
      memory := (resources.limits.memory.bind Quantity.memory?).or options.memory } rest := by
  rw [resourceArguments]
  cases resources.limits.cpu.bind Quantity.processors? with
  | none =>
    cases resources.limits.memory.bind Quantity.memory? with
    | none => rfl
    | some memory => exact scan_flag .memory memory
  | some processors =>
    refine (scan_flag .processors processors).trans ?_
    cases resources.limits.memory.bind Quantity.memory? with
    | none => rfl
    | some memory => exact scan_flag .memory memory

/-- The names in a table after more entries. -/
theorem speakable_foldl {entries : List (String × String)} (hnew : ∀ e ∈ entries, Speakable e.1)
    {table : Table String} (hold : ∀ e ∈ table.toList, Speakable e.1) :
    ∀ e ∈ (entries.foldl (fun t e => t.insert e.1 e.2) table).toList, Speakable e.1 := by
  induction entries generalizing table with
  | nil => exact hold
  | cons new entries ih =>
    obtain ⟨hfirst, hlater⟩ := List.forall_mem_cons.mp hnew
    refine ih hlater ?_
    rintro ⟨key, value⟩ he
    rw [Table.mem_toList_iff, Table.get?_insert] at he
    split at he
    · next heq => exact heq ▸ hfirst
    · exact hold _ (Table.mem_toList_iff.mpr he)

/-! ## The command line of a worker -/

section Worker

variable {t : Worker.Template} {job : Job}

theorem env_eq (t : Worker.Template) (job : Job) :
    t.env job = (ownVariables job).foldl (fun t e => t.insert e.1 e.2) t.extraEnv := rfl

theorem ownVariables_distinct (job : Job) : ((ownVariables job).map (·.1)).Nodup := by
  have hnames : (ownVariables job).map (·.1) = ["JOB_NAME", "JOB_UID", "BACKEND_NAME", "SHOTS",
    "CIRCUITS", "WORKER_IMAGE", "ATTEMPT"] := rfl
  rw [hnames]
  decide

/-- The variables that tell of the job are there, and have the last word. -/
theorem get?_env {key value : String} : (t.env job).get? key = some value ↔
    (key, value) ∈ ownVariables job ∨
      key ∉ (ownVariables job).map (·.1) ∧ t.extraEnv.get? key = some value := by
  rw [env_eq]
  exact Table.get?_foldl_insert _ (ownVariables_distinct job)

theorem speakable_labels : ∀ e ∈ (Worker.Template.labels job).toList, Speakable e.1 := by
  refine speakable_foldl (fun e he => ?_) nofun
  have hname : e.1 ∈ ["app", "aerjob.io/managed", "aerjob.io/job"] := List.mem_map_of_mem he
  exact (by decide : ∀ name ∈ ["app", "aerjob.io/managed", "aerjob.io/job"], Speakable name) _ hname

theorem speakable_env (h : ∀ e ∈ t.extraEnv.toList, Speakable e.1) :
    ∀ e ∈ (t.env job).toList, Speakable e.1 := by
  rw [env_eq]
  refine speakable_foldl (fun e he => ?_) h
  have hname : e.1 ∈ ["JOB_NAME", "JOB_UID", "BACKEND_NAME", "SHOTS", "CIRCUITS", "WORKER_IMAGE",
    "ATTEMPT"] := List.mem_map_of_mem he
  exact (by decide : ∀ name ∈ ["JOB_NAME", "JOB_UID", "BACKEND_NAME", "SHOTS", "CIRCUITS",
    "WORKER_IMAGE", "ATTEMPT"], Speakable name) _ hname

/-- The options that the command line of a job's worker holds. -/
def meant (t : Worker.Template) (job : Job) : Options where
  detached := true
  name := some (Worker.nameOf job)
  labels := Worker.Template.labels job
  env := t.env job
  processors := (job.spec.resources.limits.cpu.or (some "2")).bind Quantity.processors?
  memory := (job.spec.resources.limits.memory.or (some "2Gi")).bind Quantity.memory?

/-- The options arrive, and then there is the image. -/
theorem read?_runArguments (h : ∀ e ∈ t.extraEnv.toList, Speakable e.1) (createdAt : Instant) :
    read? (runArguments ((t.launch job).toWorker createdAt)) =
      scan (meant t job) [job.spec.workerImage] := by
  let named : Options := { detached := true, name := some (Worker.nameOf job) }
  let labelled : Options := { named with labels := Worker.Template.labels job }
  let furnished : Options := { labelled with env := t.env job }
  have hlabels (rest : List String) :
      scan named (tableArguments "--label" (Worker.Template.labels job) ++ rest) =
        scan labelled rest :=
    scan_tableArguments .label (fun labels => { named with labels := labels }) (fun _ _ => rfl)
      speakable_labels
  have henv (rest : List String) :
      scan labelled (tableArguments "-e" (t.env job) ++ rest) = scan furnished rest :=
    scan_tableArguments .env (fun env => { labelled with env := env }) (fun _ _ => rfl)
      (speakable_env h)
  have hlimits : scan furnished (resourceArguments (t.launch job).spec.resources ++
      [job.spec.workerImage]) = scan (meant t job) [job.spec.workerImage] := by
    rw [scan_resourceArguments, Option.or_none, Option.or_none]
    rfl
  simp only [runArguments, List.append_assoc, List.cons_append, List.nil_append, read?]
  refine (scan_detached.trans ((scan_flag .name _).trans ?_))
  exact (hlabels _).trans ((henv _).trans hlimits)

theorem intact_meant : Intact t job ⟨meant t job, job.spec.workerImage, []⟩ where
  detached := rfl
  name := rfl
  labels := rfl
  own := fun _ he => get?_env.mpr (.inl he)
  common := by
    intro key hkey
    refine Option.ext fun value => get?_env.trans ?_
    have hnot : (key, value) ∉ ownVariables job := fun hmem => hkey (List.mem_map_of_mem hmem)
    simp only [hnot, hkey, not_false_eq_true, true_and, false_or]
  processors := rfl
  memory := rfl
  image := rfl
  rest := rfl

/-- **What is meant for a worker arrives** exactly if its image does not look like an option. -/
theorem run_intact_iff (t : Worker.Template) (job : Job) (createdAt : Instant)
    (h : ∀ e ∈ t.extraEnv.toList, Speakable e.1) :
    (∃ request, read? (runArguments ((t.launch job).toWorker createdAt)) = some request ∧
      Intact t job request) ↔ job.spec.workerImage.toList.head? ≠ some '-' := by
  rw [read?_runArguments h]
  constructor
  · rintro ⟨request, hread, -⟩ himage
    rw [scan_option (decide_eq_true himage)] at hread
    cases hread
  · intro himage
    exact ⟨_, scan_image (decide_eq_false himage), intact_meant⟩

/-- A job as it is kept after it was submitted. -/
def submitted (image : String) : Job :=
  Job.Submission.toJob ⟨"bell", { workerImage := image, circuits := "[]" }⟩ (.ofNat 1) (.ofSecond 0)

/-- What the workers of a site are told of their surroundings. -/
def siteTemplate : Worker.Template := ⟨.ofList [("REDIS_HOST", "redis")]⟩

theorem run_intact_bell : (∀ e ∈ siteTemplate.extraEnv.toList, Speakable e.1) ∧
    ∃ request, read? (runArguments ((siteTemplate.launch (submitted "aer:0.15")).toWorker
      (.ofSecond 0))) = some request ∧ Intact siteTemplate (submitted "aer:0.15") request := by
  have hspeakable : ∀ e ∈ siteTemplate.extraEnv.toList, Speakable e.1 := by decide +kernel
  exact ⟨hspeakable, (run_intact_iff siteTemplate _ _ hspeakable).mpr (by decide)⟩

/-- An image that looks like an option is let pass, and the host finds no image. -/
theorem not_run_intact : ¬ ∀ (t : Worker.Template) (job : Job) (createdAt : Instant),
    Api.validate ⟨job.name, job.spec⟩ = .ok () → (∀ e ∈ t.extraEnv.toList, Speakable e.1) →
    ∃ request, read? (runArguments ((t.launch job).toWorker createdAt)) = some request ∧
      Intact t job request := by
  intro hall
  have hvalid : Api.validate ⟨(submitted "--privileged").name, (submitted "--privileged").spec⟩ =
      .ok () := by rfl
  obtain ⟨request, hread, -⟩ := hall {} (submitted "--privileged") (.ofSecond 0) hvalid nofun
  have hnone : (read? (runArguments ((({} : Worker.Template).launch
      (submitted "--privileged")).toWorker (.ofSecond 0)))).isNone := by decide +kernel
  rw [hread] at hnone
  cases hnone

end Worker

end JobOperator.Podman
