import FipsShield.Banlist.Corrupt
import FipsShield.Library.Transducer

/-! Checks of addresses in any order with replacements of the banlist, each check looking at
the file's time and size before it reads the text: no check answers from a text that was
already replaced when it started. -/
namespace FipsShield.Banlist.Versions
open Text Transducer

variable {ι : Type}

/-- How far a call of `isBanned` is; `since` counts the steps made before its start. -/
inductive Phase where
  | idle
  | started (ip : Str) (since : Nat)
  | statted (ip : Str) (since : Nat) (mtime : ℚ) (size : Nat)
  | reading (ip : Str) (since : Nat) (mtime : ℚ) (size : Nat)
  | loaded (ip : Str) (since : Nat) (map : List (Str × Number))

inductive Label (ι : Type) where
  | replace (file : File)
  | start (p : ι) (ip : Str)
  | stat (p : ι)
  | compare (p : ι)
  | read (p : ι)
  | answer (p : ι) (now : Nat)

inductive Event (ι : Type) where
  | answered (p : ι) (ip : Str) (since now : Nat) (banned : Bool)

/-- The file and those it has replaced, the cache of the module, and its calls. -/
structure Site (ι : Type) where
  file : File
  earlier : List File
  cache : BanCache
  calls : ι → Phase
  time : Nat

def Site.initial (file : File) : Site ι := ⟨file,[],.initial,fun _ => .idle,0⟩

def Site.versions (s : Site ι) : List File := s.file::s.earlier

def stamp (file : File) : ℚ × Nat := (file.mtime,file.size)

def Site.become [DecidableEq ι] (s : Site ι) (p : ι) (phase : Phase) : Site ι :=
  {s with calls := Function.update s.calls p phase}

/-- A replacement, whose time and size no earlier file had, or a step of a call. -/
def act [DecidableEq ι] (path : Str) (s : Site ι) : Label ι → Site ι × List (Event ι)
  | .replace file =>
    (if (s.versions.map stamp).contains (stamp file) then s else {s with file,earlier := s.versions},[])
  | .start p ip =>
    match s.calls p with
    | .idle => (s.become p (.started ip s.time),[])
    | _ => (s,[])
  | .stat p =>
    match s.calls p with
    | .started ip since =>
      ({s.become p (.statted ip since s.file.mtime s.file.size) with cache := {s.cache with loadFailed := false}},[])
    | _ => (s,[])
  | .compare p =>
    match s.calls p with
    | .statted ip since mtime size =>
      if s.cache.path = path ∧ s.cache.mtime = mtime ∧ s.cache.size = size then
        (s.become p (.loaded ip since s.cache.map),[])
      else (s.become p (.reading ip since mtime size),[])
    | _ => (s,[])
  | .read p =>
    match s.calls p with
    | .reading ip since mtime size =>
      let map := parseBans s.file.text
      ({s.become p (.loaded ip since map) with cache := ⟨path,mtime,size,map,false⟩},[])
    | _ => (s,[])
  | .answer p now =>
    match s.calls p with
    | .loaded ip since map => (s.become p .idle,[.answered p ip since now (decides map ip now)])
    | _ => (s,[])

def step [DecidableEq ι] (path : Str) (s : Site ι) (label : Label ι) : Site ι × List (Event ι) :=
  ({(act path s label).1 with time := s.time + 1},(act path s label).2)

section Run
variable [DecidableEq ι] (path : Str) (file : File)

def after (labels : List (Label ι)) : Site ι := (run (step path) (Site.initial file) labels).1

/-- A call that nothing comes between is one of `isBanned`. -/
theorem call_alone {s : Site ι} {p : ι} (idle : s.calls p = .idle) (named : path ≠ []) (ip : Str) (now : Nat) :
    let ran := run (step path) s [.start p ip,.stat p,.compare p,.read p,.answer p now]
    ran.2 = [.answered p ip s.time now (isBanned s.cache ip path (.readable s.file) now).1] ∧
      ran.1.cache = (isBanned s.cache ip path (.readable s.file) now).2 := by
  rw [isBanned_eq s.cache ip named]
  by_cases hit : s.cache.path = path ∧ s.cache.mtime = s.file.mtime ∧ s.cache.size = s.file.size
  · simp [run,step,act,idle,Site.become,hit,loadBans]
  · simp [run,step,act,idle,Site.become,hit,loadBans]

variable {path file}

theorem after_concat (labels : List (Label ι)) (label : Label ι) :
    after path file (labels ++ [label]) = (step path (after path file labels) label).1 := by
  rw [after,run_concat]
  rfl

/-! ## Versions -/

theorem act_versions (s : Site ι) (label : Label ι) : (act path s label).1.versions = s.versions ∨
    ∃ fresh, stamp fresh ∉ s.versions.map stamp ∧ (act path s label).1.versions = fresh::s.versions := by
  cases label with
  | replace fresh =>
    simp only [act]
    split_ifs with used
    · exact Or.inl rfl
    · exact Or.inr ⟨fresh,fun member => used (List.contains_iff_mem.mpr member),rfl⟩
  | compare p =>
    simp only [act]
    split
    · split_ifs <;> exact Or.inl rfl
    · exact Or.inl rfl
  | _ =>
    simp only [act]
    split <;> exact Or.inl rfl

theorem versions_nodup (labels : List (Label ι)) : ((after path file labels).versions.map stamp).Nodup := by
  induction labels using List.reverseRecOn with
  | nil => simp [after,Site.initial,Site.versions]
  | append_singleton earlier label ih =>
    rw [after_concat]
    rcases @act_versions ι _ path (after path file earlier) label with same | ⟨fresh,absent,added⟩
    · exact same ▸ ih
    · change ((act path (after path file earlier) label).1.versions.map stamp).Nodup
      rw [added,List.map_cons]
      exact List.nodup_cons.mpr ⟨absent,ih⟩

theorem versions_grow (labels more : List (Label ι)) :
    ∃ newer, (after path file (labels ++ more)).versions = newer ++ (after path file labels).versions := by
  induction more using List.reverseRecOn with
  | nil => exact ⟨[],by rw [List.append_nil,List.nil_append]⟩
  | append_singleton earlier label ih =>
    obtain ⟨newer,grown⟩ := ih
    rw [← List.append_assoc,after_concat]
    rcases @act_versions ι _ path (after path file (labels ++ earlier)) label with same | ⟨fresh,_,added⟩
    · exact ⟨newer,same.trans grown⟩
    · exact ⟨fresh::newer,added.trans (congrArg (fresh::·) grown)⟩

/-- Between two moments with the same time and size the file is the same. -/
theorem file_between {labels : List (Label ι)} {a b c : Nat} (first : a ≤ b) (second : b ≤ c)
    (same : stamp (after path file (labels.take a)).file = stamp (after path file (labels.take c)).file) :
    (after path file (labels.take b)).file = (after path file (labels.take c)).file := by
  have later {m n : Nat} (le : m ≤ n) : ∃ newer, (after path file (labels.take n)).versions =
      newer ++ (after path file (labels.take m)).versions := by
    obtain ⟨more,split⟩ := List.take_prefix_take_left (l := labels) le
    rw [← split]
    exact versions_grow (labels.take m) more
  obtain ⟨between,grown⟩ := later first
  obtain ⟨newer,grown'⟩ := later second
  have distinct := @versions_nodup ι _ path file (labels.take c)
  cases newer with
  | nil => exact (List.cons.inj grown').1.symm
  | cons fresh rest =>
    have latest : (after path file (labels.take c)).file = fresh := (List.cons.inj grown').1
    rw [grown',grown,List.cons_append,List.map_cons,List.nodup_cons] at distinct
    refine absurd ?_ distinct.1
    rw [← latest,← same]
    apply List.mem_map_of_mem
    simp [Site.versions]

/-! ## Calls -/

section Calls
variable (path : Str) (file : File) (labels : List (Label ι))

/-- The file after so many steps. -/
def fileAt (t : Nat) : File := (after path file (labels.take t)).file

/-- The call started with the step of that number. -/
def Began (p : ι) (ip : Str) (since : Nat) : Prop :=
  labels[since]? = some (.start p ip) ∧ (after path file (labels.take since)).calls p = .idle

def Sound (p : ι) : Phase → Prop
  | .idle => True
  | .started ip since => Began path file labels p ip since
  | .statted ip since mtime size | .reading ip since mtime size => Began path file labels p ip since ∧
      ∃ t, since ≤ t ∧ t ≤ labels.length ∧ stamp (fileAt path file labels t) = (mtime,size)
  | .loaded ip since map => Began path file labels p ip since ∧
      ∃ t, since ≤ t ∧ t ≤ labels.length ∧ map = parseBans (fileAt path file labels t).text

/-- The cache has the time and size of one moment and the text of a later one. -/
def Cached (cache : BanCache) : Prop := 0 ≤ cache.size → ∃ a b, a ≤ b ∧ b ≤ labels.length ∧
  (cache.mtime,cache.size) = ((fileAt path file labels a).mtime,((fileAt path file labels a).size : Int)) ∧
  cache.map = parseBans (fileAt path file labels b).text

/-- What has happened accounts for the cache and for every call. -/
structure Kept : Prop where
  calls : ∀ p, Sound path file labels p ((after path file labels).calls p)
  cache : Cached path file labels (after path file labels).cache

variable {path file labels} {label : Label ι}

omit [DecidableEq ι] in
theorem take_earlier {t : Nat} (earlier : t ≤ labels.length) : (labels ++ [label]).take t = labels.take t :=
  List.take_append_of_le_length earlier

theorem fileAt_earlier {t : Nat} (earlier : t ≤ labels.length) :
    fileAt path file (labels ++ [label]) t = fileAt path file labels t := by
  rw [fileAt,take_earlier earlier,fileAt]

theorem fileAt_now : fileAt path file (labels ++ [label]) labels.length = (after path file labels).file := by
  rw [fileAt,List.take_left]

theorem after_time : (after path file labels).time = labels.length := by
  induction labels using List.reverseRecOn with
  | nil => rfl
  | append_singleton earlier label ih =>
    rw [after_concat,List.length_append,List.length_singleton,← ih]
    rfl

theorem Began.before {p : ι} {ip : Str} {since : Nat} (began : Began path file labels p ip since) :
    since < labels.length := (List.getElem?_eq_some_iff.mp began.1).1

theorem Began.later {p : ι} {ip : Str} {since : Nat} (began : Began path file labels p ip since) :
    Began path file (labels ++ [label]) p ip since := by
  have within := began.before
  refine ⟨?_,?_⟩
  · rw [List.getElem?_append_left within]
    exact began.1
  · rw [take_earlier within.le]
    exact began.2

theorem Sound.later {p : ι} {phase : Phase} (sound : Sound path file labels p phase) :
    Sound path file (labels ++ [label]) p phase := by
  have longer : labels.length ≤ (labels ++ [label]).length := by simp
  cases phase with
  | idle => trivial
  | started ip since => exact Began.later sound
  | statted ip since mtime size =>
    obtain ⟨began,t,low,high,same⟩ := sound
    exact ⟨began.later,t,low,high.trans longer,by rw [fileAt_earlier high]; exact same⟩
  | reading ip since mtime size =>
    obtain ⟨began,t,low,high,same⟩ := sound
    exact ⟨began.later,t,low,high.trans longer,by rw [fileAt_earlier high]; exact same⟩
  | loaded ip since map =>
    obtain ⟨began,t,low,high,same⟩ := sound
    exact ⟨began.later,t,low,high.trans longer,by rw [fileAt_earlier high]; exact same⟩

theorem Cached.later {cache : BanCache} (cached : Cached path file labels cache) :
    Cached path file (labels ++ [label]) cache := by
  intro filled
  obtain ⟨a,b,order,high,stamped,map⟩ := cached filled
  have longer : labels.length ≤ (labels ++ [label]).length := by simp
  refine ⟨a,b,order,high.trans longer,?_,?_⟩
  · rw [fileAt_earlier (order.trans high)]
    exact stamped
  · rw [fileAt_earlier high]
    exact map

/-- A hit has the text of a moment after the call started: if it was read before the look at
the file, the file has not changed since its time and size were kept. -/
theorem Cached.hit {cache : BanCache} (cached : Cached path file labels cache) {since c : Nat} {mtime : ℚ} {size : Nat}
    (low : since ≤ c) (high : c ≤ labels.length) (seen : stamp (fileAt path file labels c) = (mtime,size))
    (same : cache.mtime = mtime ∧ cache.size = size) :
    ∃ t, since ≤ t ∧ t ≤ labels.length ∧ cache.map = parseBans (fileAt path file labels t).text := by
  obtain ⟨a,b,order,bound,stamped,map⟩ := cached (by rw [same.2]; exact Int.natCast_nonneg size)
  rcases le_or_gt c b with after | before
  · exact ⟨b,low.trans after,bound,map⟩
  · have equal : stamp (fileAt path file labels a) = stamp (fileAt path file labels c) := by
      rw [same.1,same.2] at stamped
      obtain ⟨mtimes,sizes⟩ := Prod.mk.inj stamped
      rw [seen,mtimes,Int.ofNat_inj.mp sizes]
      rfl
    have unchanged := file_between order before.le equal
    refine ⟨c,low,high,?_⟩
    rw [map]
    exact congrArg (fun f : File => parseBans f.text) unchanged

/-- A step moves at most one call, so only that call and the cache are to be accounted for. -/
theorem Kept.moved (kept : Kept path file labels) (p : ι) (phase : Phase)
    (calls : (step path (after path file labels) label).1.calls = Function.update (after path file labels).calls p phase)
    (sound : Sound path file (labels ++ [label]) p phase)
    (cache : Cached path file (labels ++ [label]) (step path (after path file labels) label).1.cache) :
    Kept path file (labels ++ [label]) := by
  refine ⟨fun q => ?_,by rw [after_concat]; exact cache⟩
  rw [after_concat,calls]
  by_cases own : q = p
  · subst own
    rw [Function.update_self]
    exact sound
  · rw [Function.update_of_ne own]
    exact (kept.calls q).later

theorem Kept.unmoved (kept : Kept path file labels)
    (calls : (step path (after path file labels) label).1.calls = (after path file labels).calls)
    (cache : (step path (after path file labels) label).1.cache = (after path file labels).cache) :
    Kept path file (labels ++ [label]) := by
  refine ⟨fun q => ?_,?_⟩
  · rw [after_concat,calls]
    exact (kept.calls q).later
  · rw [after_concat,cache]
    exact kept.cache.later

theorem Kept.steps (kept : Kept path file labels) (label : Label ι) : Kept path file (labels ++ [label]) := by
  have longer : labels.length ≤ (labels ++ [label]).length := by simp
  have cached := @Cached.later ι _ path file labels label _ kept.cache
  cases label with
  | replace fresh =>
    apply kept.unmoved
    · simp only [step,act]
      split_ifs <;> rfl
    · simp only [step,act]
      split_ifs <;> rfl
  | start p ip =>
    cases phase : (after path file labels).calls p with
    | idle =>
      refine kept.moved p (.started ip (after path file labels).time) ?_ ⟨?_,?_⟩ ?_
      · simp only [step,act,phase]
        rfl
      · rw [after_time]
        exact List.getElem?_concat_length
      · rw [after_time,List.take_left]
        exact phase
      · simp only [step,act,phase]
        exact cached
    | _ => apply kept.unmoved <;> simp only [step,act,phase]
  | stat p =>
    cases phase : (after path file labels).calls p with
    | started ip since =>
      have sound : Sound path file labels p (.started ip since) := phase ▸ kept.calls p
      have began : Began path file labels p ip since := sound
      refine kept.moved p (.statted ip since (after path file labels).file.mtime
        (after path file labels).file.size) ?_ ⟨began.later,labels.length,began.before.le,longer,?_⟩ ?_
      · simp only [step,act,phase]
        rfl
      · rw [fileAt_now]
        rfl
      · simp only [step,act,phase]
        exact cached
    | _ => apply kept.unmoved <;> simp only [step,act,phase]
  | compare p =>
    cases phase : (after path file labels).calls p with
    | statted ip since mtime size =>
      obtain ⟨began,c,low,high,seen⟩ : Sound path file labels p (.statted ip since mtime size) := phase ▸ kept.calls p
      by_cases hit : (after path file labels).cache.path = path ∧ (after path file labels).cache.mtime = mtime ∧
          (after path file labels).cache.size = size
      · obtain ⟨t,low',high',map⟩ := kept.cache.hit low high seen hit.2
        refine kept.moved p (.loaded ip since (after path file labels).cache.map) ?_
          ⟨began.later,t,low',high'.trans longer,?_⟩ ?_
        · simp only [step,act,phase,if_pos hit]
          rfl
        · rw [fileAt_earlier high']
          exact map
        · simp only [step,act,phase,if_pos hit]
          exact cached
      · refine kept.moved p (.reading ip since mtime size) ?_
          ⟨began.later,c,low,high.trans longer,?_⟩ ?_
        · simp only [step,act,phase,if_neg hit]
          rfl
        · rw [fileAt_earlier high]
          exact seen
        · simp only [step,act,phase,if_neg hit]
          exact cached
    | _ => apply kept.unmoved <;> simp only [step,act,phase]
  | read p =>
    cases phase : (after path file labels).calls p with
    | reading ip since mtime size =>
      obtain ⟨began,c,low,high,seen⟩ : Sound path file labels p (.reading ip since mtime size) := phase ▸ kept.calls p
      refine kept.moved p (.loaded ip since (parseBans (after path file labels).file.text)) ?_
        ⟨began.later,labels.length,began.before.le,longer,?_⟩ ?_
      · simp only [step,act,phase]
        rfl
      · rw [fileAt_now]
      · simp only [step,act,phase]
        refine fun _ => ⟨c,labels.length,high,longer,?_,?_⟩
        · rw [fileAt_earlier high]
          obtain ⟨rfl,rfl⟩ := Prod.mk.inj seen
          rfl
        · rw [fileAt_now]
    | _ => apply kept.unmoved <;> simp only [step,act,phase]
  | answer p now =>
    cases phase : (after path file labels).calls p with
    | loaded ip since map =>
      refine kept.moved p .idle ?_ trivial ?_
      · simp only [step,act,phase]
        rfl
      · simp only [step,act,phase]
        exact cached
    | _ => apply kept.unmoved <;> simp only [step,act,phase]

theorem run_kept (labels : List (Label ι)) : Kept path file labels := by
  induction labels using List.reverseRecOn with
  | nil => exact ⟨fun _ => trivial,fun filled => absurd filled (by simp [after,Site.initial,BanCache.initial])⟩
  | append_singleton earlier label ih => exact ih.steps label

end Calls

/-- The call started when the event says, and answers from a text that was in the file at a
moment from then on. -/
def Current (path : Str) (file : File) (labels : List (Label ι)) : Event ι → Prop
  | .answered p ip since now banned => Began path file labels p ip since ∧
      ∃ t, since ≤ t ∧ t ≤ labels.length ∧ banned = decides (parseBans (fileAt path file labels t).text) ip now

/-- In whatever order the calls look at the file, compare, read and answer, and the file is
replaced: every answer is from a text that was in the file while its call was under way. -/
theorem answers_current (path : Str) (file : File) (labels : List (Label ι)) (label : Label ι) :
    ∀ event ∈ (step path (after path file labels) label).2, Current path file labels event := by
  intro event emitted
  have kept := @run_kept ι _ path file labels
  cases label with
  | answer p now =>
    cases phase : (after path file labels).calls p with
    | loaded ip since map =>
      obtain ⟨began,t,low,high,rfl⟩ : Sound path file labels p (.loaded ip since map) := phase ▸ kept.calls p
      simp only [step,act,phase,List.mem_singleton] at emitted
      rw [emitted]
      exact ⟨began,t,low,high,rfl⟩
    | _ => simp [step,act,phase] at emitted
  | compare p =>
    simp only [step,act] at emitted
    split at emitted
    · split_ifs at emitted <;> cases emitted
    · cases emitted
  | replace fresh => cases emitted
  | _ =>
    simp only [step,act] at emitted
    split at emitted <;> cases emitted

end Run

/-- The file is replaced between a call's look at it and its reading of it. -/
def overtaken : List (Label Unit) :=
  [.start () (str "10.0.0.7"),.stat (),.replace ⟨str "10.0.0.7 0\n",2⟩,.compare (),.read ()]

theorem answers_current_overtaken :
    .answered () (str "10.0.0.7") 0 1000 true ∈
        (step (str "b") (after (str "b") ⟨[],1⟩ overtaken) (.answer () 1000)).2 ∧
      Current (str "b") ⟨[],1⟩ overtaken (.answered () (str "10.0.0.7") 0 1000 true) := by
  have banned : decides (parseBans (str "10.0.0.7 0\n")) (str "10.0.0.7") 1000 = true := by decide +kernel
  have emitted : .answered () (str "10.0.0.7") 0 1000 true ∈
      (step (str "b") (after (str "b") ⟨[],1⟩ overtaken) (.answer () 1000)).2 := by
    simp [overtaken,after,run,step,act,Site.become,Site.initial,Site.versions,stamp,BanCache.initial,banned]
  exact ⟨emitted,answers_current (str "b") ⟨[],1⟩ overtaken (.answer () 1000) _ emitted⟩

end FipsShield.Banlist.Versions
