import FipsShield.Config.Templates

/-! What `deploy/host/render.sh` makes of a deployment: when it renders, and what the rendered
files say. -/
namespace FipsShield.Config
open Text Lines Banlist Directives

/-- The value that the preset of a scope has at the scope's level. -/
def scopeValue (layer : List (Str × Str)) (k scope : Str) : Option Str :=
  last (entries ((presetLines scope (levelOf layer scope)).getD [])) k

/-- What a key is set to in the shell that renders: the last value of the env file, else that of
the preset, where the scope of that is read. -/
def inForce (layer : List (Str × Str)) (scopes : List Str) (k : Str) : Option Str :=
  match scopes.findSome? (scopeValue layer k) with
  | some v => some ((last layer k).getD v)
  | none => if sections.any (fun part => part.2.any fun row => str row.key == k) then none else last layer k

/-- The scopes that the resolver reads for a deployment. -/
def Deployment.scopes (deployment : Deployment) (sh : Interpreter) (path : Str) : List Str :=
  Config.scopes sh (ownNames.tree path).toPresets deployment.custom

def Deployment.value (deployment : Deployment) (sh : Interpreter) (path k : Str) : Str :=
  (inForce (entries deployment.lines) (deployment.scopes sh path) k).getD []

/-- The words of the profile list, as the shell takes them. -/
def Deployment.words (deployment : Deployment) (bash : Interpreter) : List Str :=
  listWords bash (profilesOf (entries deployment.lines))

/-- `render.sh`, from the shipped presets and templates. -/
def Deployment.render (deployment : Deployment) (sh bash : Interpreter) (path envFile : Str) : Except Str (List (Str × Str)) :=
  renderSh sh bash shippedCheckout (ownNames.tree path).toPresets deployment.ambient envFile deployment.custom

/-! ## What is exported -/

section Exported
variable {sh bash : Interpreter} {path : Str} {deployment : Deployment}

theorem scopeValue_row {layer : List (Str × Str)} {k scope : Str} {part : Str × List Row} (own : part ∈ sections) {row : Row}
    (within : row ∈ part.2) (key : str row.key = k) {v : Str} (found : scopeValue layer k scope = some v) : scope = part.1 := by
  rw [scopeValue] at found
  cases lines : presetLines scope (levelOf layer scope) with
  | none =>
    rw [lines] at found
    cases found
  | some preset =>
    rw [lines,Option.getD_some] at found
    obtain ⟨rows,value,held,_,same⟩ := presetLines_entries lines
    have inside := last_mem found
    rw [same] at inside
    obtain ⟨row',within',entry⟩ := List.mem_map.mp inside
    have keys : str row'.key = str row.key := (congrArg Prod.fst entry).trans key.symm
    by_contra apart
    have other : (scope,rows) ≠ part := fun same => apart (congrArg Prod.fst same)
    exact keys_disjoint (rowsOf_mem held) own other (List.mem_map_of_mem within') (keys ▸ List.mem_map_of_mem within)

theorem scopeValue_column {layer : List (Str × Str)} {part : Str × List Row} (own : part ∈ sections) {row : Row}
    (within : row ∈ part.2) {value : Row → String} (level : column (levelOf layer part.1) = some value) :
    scopeValue layer (str row.key) part.1 = some (str (value row)) := by
  obtain ⟨preset,lines,same⟩ := presetLines_row (rowsOf_part own) level
  rw [scopeValue,lines,Option.getD_some,same]
  refine last_only (List.mem_map_of_mem within) fun w inside => ?_
  obtain ⟨row',within',entry⟩ := List.mem_map.mp inside
  obtain ⟨key,rfl⟩ := Prod.mk.inj entry
  have once := (List.nodup_flatMap.mp keys_nodup).1 _ own
  obtain rfl := List.inj_on_of_nodup_map once within' within key
  rfl

theorem findSome_only {α β : Type} {f : α → Option β} {items : List α} {item : α} {b : β} (own : item ∈ items)
    (found : f item = some b) (only : ∀ other ∈ items, ∀ c, f other = some c → c = b) : items.findSome? f = some b := by
  cases first : items.findSome? f with
  | none => exact absurd (List.findSome?_eq_none_iff.mp first item own) (by simp [found])
  | some c =>
    obtain ⟨other,member,same⟩ := List.exists_of_findSome?_eq_some first
    rw [only other member c same]

theorem inForce_read {layer : List (Str × Str)} {scopes : List Str} {part : Str × List Row} (own : part ∈ sections) {row : Row}
    (within : row ∈ part.2) (read : part.1 ∈ scopes) {value : Row → String} (level : column (levelOf layer part.1) = some value) :
    inForce layer scopes (str row.key) = some ((last layer (str row.key)).getD (str (value row))) := by
  have found := scopeValue_column own within level
  rw [inForce,findSome_only read found]
  intro other _ c same
  obtain rfl := scopeValue_row own within rfl same
  exact Option.some.inj (same.symm.trans found)

theorem inForce_unread {layer : List (Str × Str)} {scopes : List Str} {part : Str × List Row} (own : part ∈ sections) {row : Row}
    (within : row ∈ part.2) (unread : part.1 ∉ scopes) : inForce layer scopes (str row.key) = none := by
  have none : scopes.findSome? (scopeValue layer (str row.key)) = none := by
    refine List.findSome?_eq_none_iff.mpr fun scope member => ?_
    by_contra some
    obtain ⟨v,found⟩ := Option.ne_none_iff_exists'.mp some
    exact unread (scopeValue_row own within rfl found ▸ member)
  have known : sections.any (fun part => part.2.any fun row' => str row'.key == str row.key) = true :=
    List.any_eq_true.mpr ⟨part,own,List.any_eq_true.mpr ⟨row,within,by simp⟩⟩
  rw [inForce,none,known]
  rfl

theorem inForce_unknown {layer : List (Str × Str)} {scopes : List Str} {k : Str}
    (unknown : ∀ part ∈ sections, ∀ row ∈ part.2, str row.key ≠ k) : inForce layer scopes k = last layer k := by
  have none : scopes.findSome? (scopeValue layer k) = none := by
    refine List.findSome?_eq_none_iff.mpr fun scope _ => ?_
    rw [scopeValue]
    cases lines : presetLines scope (levelOf layer scope) with
    | none => rfl
    | some preset =>
      obtain ⟨rows,value,held,_,same⟩ := presetLines_entries lines
      rw [Option.getD_some,← Option.not_isSome_iff_eq_none,last_isSome,same,keys_entries,List.mem_map]
      rintro ⟨row,within,key⟩
      exact unknown _ (rowsOf_mem held) row within key
  have other : sections.any (fun part => part.2.any fun row => str row.key == k) = false := by
    simpa using fun name rows own row within => unknown (name,rows) own row within
  rw [inForce,none,other]
  rfl

/-- What is reported of a key, its value in force. -/
theorem reports_inForce (valid : validate sh (ownNames.tree path).toPresets deployment.custom = .ok ()) {report : Report}
    (member : report ∈ reports sh (ownNames.tree path).toPresets deployment.custom) :
    inForce (entries deployment.lines) (deployment.scopes sh path) report.key = some report.value := by
  rcases List.mem_append.mp member with read | extra
  · obtain ⟨scope,inside,within⟩ := List.mem_flatMap.mp read
    obtain ⟨part,own,value,place,level,pairs⟩ := scopeReports_shipped (validated_scopes valid scope inside).2
    have name : part.1 = scope := by
      obtain ⟨_,_,same⟩ := Option.map_eq_some_iff.mp place
      exact same.symm
    have pair : (report.key,report.value) ∈ part.2.map fun row =>
        (str row.key,(last (divided (fileText deployment.lines)) (str row.key)).getD (str (value row))) :=
      pairs ▸ List.mem_map_of_mem (f := fun report : Report => (report.key,report.value)) within
    rw [custom_divided] at pair level
    obtain ⟨row,rowed,same⟩ := List.mem_map.mp pair
    obtain ⟨key,held⟩ := Prod.mk.inj same
    rw [← key,← held]
    exact inForce_read own rowed (name ▸ inside) (name ▸ level)
  · rw [Deployment.custom,extraReports_text,custom_divided] at extra
    obtain ⟨entry,own,rfl⟩ := List.mem_map.mp extra
    obtain ⟨inside,unknown⟩ := List.mem_filter.mp own
    have set : (last (entries deployment.lines) entry.1).isSome := last_isSome.mpr (List.mem_map_of_mem inside)
    obtain ⟨v,found⟩ := Option.isSome_iff_exists.mp set
    rw [inForce_unknown,found,Option.getD_some]
    intro part own row within key
    exact absurd (presetKeys_shipped.mpr ⟨part,own,row,within,key⟩) (by simpa using unknown)

theorem inForce_reported (valid : validate sh (ownNames.tree path).toPresets deployment.custom = .ok ()) {k v : Str}
    (held : inForce (entries deployment.lines) (deployment.scopes sh path) k = some v) :
    ∃ report ∈ reports sh (ownNames.tree path).toPresets deployment.custom, report.key = k := by
  by_cases known : ∃ part ∈ sections, ∃ row ∈ part.2, str row.key = k
  · obtain ⟨part,own,row,within,rfl⟩ := known
    have read : part.1 ∈ deployment.scopes sh path := by
      by_contra unread
      rw [inForce_unread own within unread] at held
      cases held
    obtain ⟨part',own',value,place,level,pairs⟩ := scopeReports_shipped (validated_scopes valid part.1 read).2
    have same : part' = part := by
      have name := Option.some.inj (place.symm.trans (ownNames.own part own))
      have rows := rowsOf_part own'
      rw [name,rowsOf_part own] at rows
      exact Prod.ext name (Option.some.inj rows).symm
    subst same
    have pair := List.mem_map_of_mem (f := fun row =>
      (str row.key,(last (divided (fileText deployment.lines)) (str row.key)).getD (str (value row)))) within
    rw [← pairs] at pair
    obtain ⟨report,inside,both⟩ := List.mem_map.mp pair
    exact ⟨report,List.mem_append_left _ (List.mem_flatMap.mpr ⟨_,read,inside⟩),congrArg Prod.fst both⟩
  · have unknown : ∀ part ∈ sections, ∀ row ∈ part.2, str row.key ≠ k :=
      fun part own row within key => known ⟨part,own,row,within,key⟩
    rw [inForce_unknown unknown] at held
    have inside := last_mem held
    have other : (k,v) ∈ (divided (fileText deployment.lines)).filter fun entry =>
        !(presetKeys (ownNames.tree path).toPresets).contains entry.1 := by
      rw [custom_divided]
      refine List.mem_filter.mpr ⟨inside,?_⟩
      simpa using fun own => known (presetKeys_shipped.mp own)
    refine ⟨⟨k,(last (divided (fileText deployment.lines)) k).getD [],str "custom"⟩,List.mem_append_right _ ?_,rfl⟩
    rw [Deployment.custom,extraReports_text]
    exact List.mem_map_of_mem (f := fun entry : Str × Str =>
      (⟨entry.1,(last (divided (fileText deployment.lines)) entry.1).getD [],str "custom"⟩ : Report)) other

/-- After what the resolver prints is evaluated, a `SHIELD_` variable is set to its value in force. -/
theorem lookup_inForce (valid : validate sh (ownNames.tree path).toPresets deployment.custom = .ok ()) {k : Str}
    (shield : shieldKey k = true) : (assignAll deployment.ambient
      ((reports sh (ownNames.tree path).toPresets deployment.custom).map fun report => (report.key,report.value))).lookup k =
      inForce (entries deployment.lines) (deployment.scopes sh path) k := by
  have unset : deployment.ambient.lookup k = none := by
    rw [AList.lookup_eq_none]
    intro inside
    rw [deployment.unset _ inside] at shield
    cases shield
  rw [assignAll,lookup_foldl,unset,Option.or_none]
  cases held : inForce (entries deployment.lines) (deployment.scopes sh path) k with
  | none =>
    by_contra some
    obtain ⟨v,found⟩ := Option.ne_none_iff_exists'.mp some
    obtain ⟨report,own,same⟩ := List.mem_map.mp (last_mem found)
    have key : report.key = k := congrArg Prod.fst same
    have value := reports_inForce valid own
    rw [key,held] at value
    cases value
  | some v =>
    obtain ⟨report,own,key⟩ := inForce_reported valid held
    have value := reports_inForce valid own
    rw [key,held] at value
    refine last_only (List.mem_map.mpr ⟨report,own,?_⟩) fun w inside => ?_
    · rw [key,Option.some.inj value]
    · obtain ⟨report',own',same⟩ := List.mem_map.mp inside
      have key' : report'.key = k := congrArg Prod.fst same
      have value' := reports_inForce valid own'
      rw [key',held] at value'
      exact (congrArg Prod.snd same).symm.trans (Option.some.inj value').symm

end Exported

/-! ## When it renders -/

/-- The templates of each profile, with the section that its presets are in. -/
def profileParts : List ((Str × List Row) × List Template) :=
  [((str "strfry",strfryRows),[strfryConf,strfryWsStream]),((str "tcp",tcpRows),[tcpStream]),
    ((str "http",httpRows),[httpStream,httpConf])]

section Renders
variable {sh bash : Interpreter} {path envFile : Str} {deployment : Deployment}

theorem checkout_profile {name : Str} {templates : List Template} :
    shippedCheckout.profile name = some templates ↔ ∃ part ∈ profileParts, part.1.1 = name ∧ part.2 = templates := by
  have apart : str "strfry" ≠ str "tcp" ∧ str "strfry" ≠ str "http" ∧ str "tcp" ≠ str "http" := by decide
  simp only [shippedCheckout,profileParts,List.mem_cons,List.not_mem_nil,or_false,exists_eq_or_imp,exists_eq_left]
  constructor
  · intro found
    split_ifs at found with strfry tcp http <;> obtain rfl := Option.some.inj found
    · exact Or.inl ⟨strfry.symm,rfl⟩
    · exact Or.inr (Or.inl ⟨tcp.symm,rfl⟩)
    · exact Or.inr (Or.inr ⟨http.symm,rfl⟩)
  · rintro (⟨rfl,rfl⟩ | ⟨rfl,rfl⟩ | ⟨rfl,rfl⟩)
    · rw [if_pos rfl]
    · rw [if_neg apart.1.symm,if_pos rfl]
    · rw [if_neg apart.2.1.symm,if_neg apart.2.2.symm,if_pos rfl]

theorem profileParts_plain {part : (Str × List Row) × List Template} (own : part ∈ profileParts) :
    part.1 ∈ sections ∧ ∀ template ∈ part.2, template.Plain (coreRows ++ part.1.2) := by
  simp only [profileParts,List.mem_cons,List.not_mem_nil,or_false] at own
  rcases own with rfl | rfl | rfl
  · refine ⟨by simp [sections],?_⟩
    simp only [List.forall_mem_cons,List.not_mem_nil,false_implies,implies_true,and_true]
    exact ⟨strfryTemplates_plain.1,strfryTemplates_plain.2.1⟩
  · refine ⟨by simp [sections],?_⟩
    simp only [List.forall_mem_cons,List.not_mem_nil,false_implies,implies_true,and_true]
    exact tcpTemplates_plain.1
  · refine ⟨by simp [sections],?_⟩
    simp only [List.forall_mem_cons,List.not_mem_nil,false_implies,implies_true,and_true]
    exact ⟨httpTemplates_plain.1,httpTemplates_plain.2.1⟩

theorem mem_selected {profiles : List Str} {template : Template} : template ∈ selected shippedCheckout profiles ↔
    template ∈ shippedCheckout.core ∨ ∃ part ∈ profileParts, part.1.1 ∈ profiles ∧ template ∈ part.2 := by
  rw [selected,List.mem_append,List.mem_flatMap]
  refine or_congr_right ⟨?_,?_⟩
  · rintro ⟨name,own,inside⟩
    cases found : shippedCheckout.profile name with
    | none =>
      rw [found] at inside
      cases inside
    | some templates =>
      obtain ⟨part,member,rfl,rfl⟩ := checkout_profile.mp found
      rw [found] at inside
      exact ⟨part,member,own,inside⟩
  · rintro ⟨part,member,own,inside⟩
    have found := checkout_profile.mpr ⟨part,member,rfl,rfl⟩
    exact ⟨part.1.1,own,by rw [found]; exact inside⟩

theorem profileParts_listen {part : (Str × List Row) × List Template} (own : part ∈ profileParts) :
    ∃ template ∈ part.2, bindAddr ∈ placeholdersIn template.text ∧
      ∃ row ∈ part.1.2, str row.key ∈ placeholdersIn template.text := by
  simp only [profileParts,List.mem_cons,List.not_mem_nil,or_false] at own
  rcases own with rfl | rfl | rfl
  · have listens := strfryTemplates_plain.2.2
    exact ⟨strfryWsStream,by simp,listens _ (by simp),_,List.mem_cons_self,listens _ (by simp)⟩
  · have listens := tcpTemplates_plain.2
    exact ⟨tcpStream,by simp,listens _ (by simp),_,List.mem_cons_of_mem _ List.mem_cons_self,listens _ (by simp)⟩
  · have listens := httpTemplates_plain.2.2
    exact ⟨httpStream,by simp,listens _ (by simp),_,List.mem_cons_of_mem _ List.mem_cons_self,listens _ (by simp)⟩

theorem bindAddr_unknown : ∀ part ∈ sections, ∀ row ∈ part.2, str row.key ≠ bindAddr :=
  keys_other (by simp [sections,coreRows,httpRows,strfryRows,tcpRows])

theorem read_column (valid : validate sh (ownNames.tree path).toPresets deployment.custom = .ok ())
    {scope : Str} (read : scope ∈ deployment.scopes sh path) :
    ∃ value, column (levelOf (entries deployment.lines) scope) = some value := by
  obtain ⟨_,_,value,_,level,_⟩ := scopeReports_shipped (validated_scopes valid scope read).2
  rw [custom_divided] at level
  exact ⟨value,level⟩

theorem renderTemplates_ok {env : Environment} {templates : List Template} {files : List (Str × Str)} :
    renderTemplates envFile env templates = .ok files ↔ (∀ k ∈ templateVars templates, (env.lookup k).isSome = true) ∧
      templates.map (fun template => (template.name,envsubst (templateVars templates) env template.text)) = files := by
  have missing : (templateVars templates).filter (fun v => (env.lookup v).isNone) = [] ↔
      ∀ k ∈ templateVars templates, (env.lookup k).isSome = true := by
    rw [List.filter_eq_nil_iff]
    exact forall₂_congr fun k _ => by cases env.lookup k <;> simp
  rw [renderTemplates]
  by_cases set : ∀ k ∈ templateVars templates, (env.lookup k).isSome = true
  · rw [if_pos (missing.mpr set),Except.ok.injEq]
    exact ⟨fun same => ⟨set,same⟩,fun both => both.2⟩
  · rw [if_neg (mt missing.mp set)]
    exact iff_of_false (by simp) fun both => set both.1

/-- With a valid list of known profiles, the templates are rendered with the values in force. -/
theorem render_templates (valid : validate sh (ownNames.tree path).toPresets deployment.custom = .ok ())
    (there : ∀ name ∈ deployment.words bash, (shippedCheckout.profile name).isSome = true) :
    ∃ env : Environment,
      (∀ k, shieldKey k = true → env.lookup k = inForce (entries deployment.lines) (deployment.scopes sh path) k) ∧
      deployment.render sh bash path envFile =
        renderTemplates envFile env (selected shippedCheckout (deployment.words bash)) := by
  have listed : renderProfiles sh bash (fun name => (shippedCheckout.profile name).isSome) (ownNames.tree path).toPresets
      deployment.ambient deployment.custom = .ok (deployment.words bash) :=
    (@render_iff sh bash (ownNames.shieldTree path) _ valid _ _).mpr ⟨rfl,there⟩
  obtain ⟨out,resolved⟩ := resolve_succeeds valid true
  have evaluated : evaluate bash deployment.ambient (captured out) = .ok (assignAll deployment.ambient
      ((reports sh (ownNames.tree path).toPresets deployment.custom).map fun report => (report.key,report.value))) :=
    @evaluate_deployment sh bash (ownNames.shieldTree path) _ valid _ resolved
  refine ⟨_,fun k shield => lookup_inForce valid shield,?_⟩
  rw [Deployment.render,renderSh,listed,ok_bind,resolved,ok_bind,evaluated,ok_bind]

theorem render_valid {files : List (Str × Str)} (renders : deployment.render sh bash path envFile = .ok files) :
    validate sh (ownNames.tree path).toPresets deployment.custom = .ok () ∧
      ∀ name ∈ deployment.words bash, (shippedCheckout.profile name).isSome = true := by
  rw [Deployment.render,renderSh] at renders
  cases listed : renderProfiles sh bash (fun name => (shippedCheckout.profile name).isSome) (ownNames.tree path).toPresets
      deployment.ambient deployment.custom with
  | error message =>
    rw [listed] at renders
    cases renders
  | ok profiles =>
    have valid : validate sh (ownNames.tree path).toPresets deployment.custom = .ok () := by
      cases resolved : resolve sh (ownNames.tree path).toPresets true deployment.custom with
      | error message =>
        rw [renderProfiles,resolved] at listed
        cases listed
      | ok out => exact (resolve_valid resolved).1
    obtain ⟨same,there⟩ := (@render_iff sh bash (ownNames.shieldTree path) _ valid _ _).mp listed
    have words : deployment.words bash = profiles := same
    exact ⟨valid,words ▸ there⟩

/-- The variables of the chosen templates are in force exactly where each profile is read, and the
address is set if there is one. -/
theorem vars_inForce_iff (valid : validate sh (ownNames.tree path).toPresets deployment.custom = .ok ())
    (there : ∀ name ∈ deployment.words bash, (shippedCheckout.profile name).isSome = true) :
    (∀ k ∈ templateVars (selected shippedCheckout (deployment.words bash)),
      (inForce (entries deployment.lines) (deployment.scopes sh path) k).isSome = true) ↔
      (∀ name ∈ deployment.words bash, name ∈ deployment.scopes sh path) ∧
        (deployment.words bash = [] ∨ (last (entries deployment.lines) bindAddr).isSome = true) := by
  constructor
  · intro set
    have each : ∀ name ∈ deployment.words bash, name ∈ deployment.scopes sh path ∧
        (last (entries deployment.lines) bindAddr).isSome = true := by
      intro name own
      obtain ⟨templates,found⟩ := Option.isSome_iff_exists.mp (there name own)
      obtain ⟨part,member,rfl,rfl⟩ := checkout_profile.mp found
      obtain ⟨template,inside,address,row,within,used⟩ := profileParts_listen member
      have chosen : template ∈ selected shippedCheckout (deployment.words bash) :=
        mem_selected.mpr (Or.inr ⟨part,member,own,inside⟩)
      constructor
      · by_contra unread
        have held := set _ (mem_templateVars.mpr ⟨template,chosen,used⟩)
        rw [inForce_unread (profileParts_plain member).1 within unread] at held
        cases held
      · have held := set _ (mem_templateVars.mpr ⟨template,chosen,address⟩)
        rwa [inForce_unknown bindAddr_unknown] at held
    refine ⟨fun name own => (each name own).1,?_⟩
    cases words : deployment.words bash with
    | nil => exact Or.inl rfl
    | cons name rest => exact Or.inr (each name (by simp [words])).2
  · rintro ⟨read,address⟩ k own
    obtain ⟨template,chosen,used⟩ := mem_templateVars.mp own
    have held {part : Str × List Row} (member : part ∈ sections) (read : part.1 ∈ deployment.scopes sh path) {row : Row}
        (within : row ∈ part.2) : (inForce (entries deployment.lines) (deployment.scopes sh path) (str row.key)).isSome = true := by
      obtain ⟨value,level⟩ := read_column valid read
      rw [inForce_read member within read level]
      rfl
    have core : (str "core",coreRows) ∈ sections := List.mem_cons_self
    rcases mem_selected.mp chosen with central | ⟨part,member,listed,inside⟩
    · rcases (coreTemplates_plain template central).1.known k used with rfl | ⟨row,within,rfl⟩
      · exact absurd used (coreTemplates_plain template central).2
      · exact held core core_scopes within
    · obtain ⟨section',plain⟩ := profileParts_plain member
      rcases (plain template inside).known k used with rfl | ⟨row,within,rfl⟩
      · rw [inForce_unknown bindAddr_unknown]
        exact address.resolve_left fun none => by simp [none] at listed
      · rcases List.mem_append.mp within with within | within
        · exact held core core_scopes within
        · exact held section' (read _ listed) within

end Renders

section Renders
variable {sh bash : Interpreter} {path envFile : Str} {deployment : Deployment}

theorem set_inForce_iff {env : Environment}
    (values : ∀ k, shieldKey k = true → env.lookup k = inForce (entries deployment.lines) (deployment.scopes sh path) k) :
    (∀ k ∈ templateVars (selected shippedCheckout (deployment.words bash)), (env.lookup k).isSome = true) ↔
      ∀ k ∈ templateVars (selected shippedCheckout (deployment.words bash)),
        (inForce (entries deployment.lines) (deployment.scopes sh path) k).isSome = true :=
  forall₂_congr fun k own => by rw [values k (templateVars_shield own)]

theorem renders_of (valid : validate sh (ownNames.tree path).toPresets deployment.custom = .ok ())
    (profiles : ∀ name ∈ deployment.words bash,
      (shippedCheckout.profile name).isSome = true ∧ name ∈ deployment.scopes sh path)
    (address : deployment.words bash = [] ∨ (last (entries deployment.lines) bindAddr).isSome = true) :
    ∃ files, deployment.render sh bash path envFile = .ok files := by
  have there := fun name own => (profiles name own).1
  obtain ⟨env,values,same⟩ := @render_templates sh bash path envFile deployment valid there
  have read := (vars_inForce_iff valid there).mpr ⟨fun name own => (profiles name own).2,address⟩
  exact ⟨_,same.trans (renderTemplates_ok.mpr ⟨(set_inForce_iff values).mpr read,rfl⟩)⟩

end Renders

/-- It renders exactly where the list is valid, each profile in it has templates and is read by the
resolver, and the address is set, which is in no preset, unless no profile is enabled. -/
theorem renders_iff (sh bash : Interpreter) (path envFile : Str) (deployment : Deployment) :
    (∃ files, deployment.render sh bash path envFile = .ok files) ↔
      validate sh (ownNames.tree path).toPresets deployment.custom = .ok () ∧
        (∀ name ∈ deployment.words bash,
          (shippedCheckout.profile name).isSome = true ∧ name ∈ deployment.scopes sh path) ∧
        (deployment.words bash = [] ∨ (last (entries deployment.lines) bindAddr).isSome = true) := by
  constructor
  · rintro ⟨files,renders⟩
    obtain ⟨valid,there⟩ := render_valid renders
    obtain ⟨env,values,same⟩ := @render_templates sh bash path envFile deployment valid there
    rw [same,renderTemplates_ok,set_inForce_iff values,vars_inForce_iff valid there] at renders
    obtain ⟨⟨read,address⟩,_⟩ := renders
    exact ⟨valid,fun name own => ⟨there name own,read name own⟩,address⟩
  · rintro ⟨valid,profiles,address⟩
    exact renders_of valid profiles address

/-! ## What the files say -/

section Files
variable {sh bash : Interpreter} {path envFile : Str} {deployment : Deployment}

/-- The shipped templates. -/
def shippedTemplates : List Template := shippedCheckout.core ++ profileParts.flatMap Prod.snd

theorem selected_shipped {profiles : List Str} {template : Template} (own : template ∈ selected shippedCheckout profiles) :
    template ∈ shippedTemplates := by
  rcases mem_selected.mp own with core | ⟨part,member,_,inside⟩
  · exact List.mem_append_left _ core
  · exact List.mem_append_right _ (List.mem_flatMap.mpr ⟨part,member,inside⟩)

theorem shipped_plain {template : Template} (own : template ∈ shippedTemplates) :
    template.Regular ∧ ∀ use ∈ template.uses, use.1 = .gap ∨ use.1 = .bare ∨ use.1 = .single := by
  rcases List.mem_append.mp own with core | profile
  · exact ⟨(coreTemplates_plain template core).1.toRegular,(coreTemplates_plain template core).1.modes⟩
  · obtain ⟨part,member,inside⟩ := List.mem_flatMap.mp profile
    have plain := (profileParts_plain member).2 template inside
    exact ⟨plain.toRegular,plain.modes⟩

/-- A value in force is of the env file or of a preset, unless it is empty. -/
theorem value_cases (deployment : Deployment) (path k : Str) : deployment.value sh path k = [] ∨
    last (entries deployment.lines) k = some (deployment.value sh path k) ∨
    ∃ part ∈ sections, ∃ row ∈ part.2, ∃ v ∈ [row.strict,row.default,row.loose], deployment.value sh path k = str v := by
  rw [Deployment.value,inForce]
  cases set : last (entries deployment.lines) k with
  | some w =>
    cases (deployment.scopes sh path).findSome? (scopeValue (entries deployment.lines) k) with
    | none =>
      dsimp only
      split_ifs
      · exact Or.inl rfl
      · exact Or.inr (Or.inl rfl)
    | some v => exact Or.inr (Or.inl rfl)
  | none =>
    cases found : (deployment.scopes sh path).findSome? (scopeValue (entries deployment.lines) k) with
    | none =>
      dsimp only
      split_ifs <;> exact Or.inl rfl
    | some v =>
      obtain ⟨scope,_,held⟩ := List.exists_of_findSome?_eq_some found
      rw [scopeValue] at held
      cases lines : presetLines scope (levelOf (entries deployment.lines) scope) with
      | none =>
        rw [lines] at held
        cases held
      | some preset =>
        obtain ⟨rows,value,rowed,levels,same⟩ := presetLines_entries lines
        rw [lines,Option.getD_some] at held
        have inside := last_mem held
        rw [same] at inside
        obtain ⟨row,within,entry⟩ := List.mem_map.mp inside
        obtain rfl : str (value row) = v := congrArg Prod.snd entry
        refine Or.inr (Or.inr ⟨_,rowsOf_mem rowed,row,within,value row,?_,rfl⟩)
        rw [column] at levels
        split_ifs at levels <;> obtain rfl := Option.some.inj levels <;> simp

/-- The value of a variable fits if what the env file sets it to does, for each preset fits. -/
theorem value_fits {template : Template} (own : template ∈ shippedTemplates) {use : Mode × Str} (used : use ∈ template.uses)
    (fits : ∀ v, last (entries deployment.lines) use.2 = some v → Fits nginx use.1 v) :
    Fits nginx use.1 (deployment.value sh path use.2) := by
  have modes := (shipped_plain own).2 use used
  rcases value_cases deployment path use.2 with empty | set | ⟨part,member,row,within,v,level,same⟩
  · rw [empty]
    rcases modes with mode | mode | mode <;> rw [mode] <;> exact fun u inside => absurd inside List.not_mem_nil
  · exact fits _ set
  · have each := rows_fit part member row within v level
    rw [same]
    rcases modes with mode | mode | mode <;> rw [mode]
    · exact each.1
    · exact each.1
    · exact each.2

/-- What the env file sets fits wherever a template has it. -/
def Deployment.Fitting (deployment : Deployment) : Prop :=
  ∀ template ∈ shippedTemplates, ∀ use ∈ template.uses, ∀ v, last (entries deployment.lines) use.2 = some v →
    Fits nginx use.1 v

/-- The rendered files, and what each of them reads as. -/
theorem rendered_files {files : List (Str × Str)} (renders : deployment.render sh bash path envFile = .ok files)
    (fitting : deployment.Fitting) :
    ∃ text : Template → Str, files = (selected shippedCheckout (deployment.words bash)).map
        (fun template => (template.name,text template)) ∧
      ∀ template ∈ selected shippedCheckout (deployment.words bash),
        Directives.items nginx (text template) = some (template.items.map (Item.fill nginx (deployment.value sh path))) := by
  obtain ⟨valid,there⟩ := render_valid renders
  obtain ⟨env,values,same⟩ := @render_templates sh bash path envFile deployment valid there
  rw [same,renderTemplates_ok] at renders
  obtain ⟨_,rfl⟩ := renders
  refine ⟨_,rfl,fun template own => ?_⟩
  have shipped := selected_shipped own
  have value : ∀ k ∈ placeholdersIn template.text, (env.lookup k).getD [] = deployment.value sh path k := fun k used => by
    rw [values k (mem_placeholdersIn used),Deployment.value]
  exact (shipped_plain shipped).1.rendered own value fun use used =>
    value_fits shipped used (fitting template shipped use used)

end Files

/-- The rendered files have the directives of the templates, with the values in force in their
words, whatever the env file sets, as long as each value that it sets fits its places. -/
theorem rendered_directives (sh bash : Interpreter) (path envFile : Str) (deployment : Deployment)
    (files : List (Str × Str)) (renders : deployment.render sh bash path envFile = .ok files)
    (fitting : deployment.Fitting) :
    files.map (fun file => (file.1,Directives.items nginx file.2)) =
      (selected shippedCheckout (deployment.words bash)).map fun template =>
        (template.name,some (template.items.map (Item.fill nginx (deployment.value sh path)))) := by
  obtain ⟨text,rfl,reads⟩ := rendered_files renders fitting
  rw [List.map_map]
  exact List.map_congr_left fun template own => by rw [Function.comp_apply,reads template own]

theorem empty_unset : ∀ k ∈ (∅ : Environment), shieldKey k = false := fun k inside =>
  absurd inside (AList.notMem_empty k)

/-- A deployment of a relay and of a shell, with a rate of its own. -/
def gateway : Deployment where
  lines := [envLine profilesKey (str "strfry,tcp"),envLine bindAddr (str "fd00::1"),
    envLine (str "SHIELD_PRESET") (str "strict"),envLine (str "SHIELD_TCP_CONN_RATE") (str "7")]
  ambient := ∅
  shield := by decide +kernel
  unset := empty_unset

theorem gateway_renders : ∃ files, gateway.render plainShell plainShell (str "/presets") (str "shield.env") = .ok files :=
  renders_of (by decide +kernel) (by decide +kernel) (by decide +kernel)

theorem gateway_fitting : gateway.Fitting := by
  intro template own use used v set
  have each : ∀ entry ∈ entries gateway.lines, Fits nginx .bare entry.2 ∧ Fits nginx .single entry.2 := by decide +kernel
  have fits := each _ (last_mem set)
  rcases (shipped_plain own).2 use used with mode | mode | mode <;> rw [mode]
  · exact fits.1
  · exact fits.1
  · exact fits.2

theorem gateway_value {part : Str × List Row} (own : part ∈ sections) (read : part.1 ∈ [str "core",str "strfry",str "tcp"])
    {row : Row} (within : row ∈ part.2) : gateway.value plainShell (str "/presets") (str row.key) =
      (last (entries gateway.lines) (str row.key)).getD (str row.strict) := by
  have levels : ∀ scope ∈ [str "core",str "strfry",str "tcp"],
      scope ∈ gateway.scopes plainShell (str "/presets") ∧ levelOf (entries gateway.lines) scope = str "strict" := by decide +kernel
  have column : column (levelOf (entries gateway.lines) part.1) = some Row.strict := by
    rw [(levels _ read).2]
    rfl
  rw [Deployment.value,inForce_read own within (levels _ read).1 column,Option.getD_some]

theorem rendered_directives_gateway : ∃ files,
    gateway.render plainShell plainShell (str "/presets") (str "shield.env") = .ok files ∧
    files.map (fun file => (file.1,Directives.items nginx file.2)) =
      (selected shippedCheckout (gateway.words plainShell)).map fun template =>
        (template.name,some (template.items.map (Item.fill nginx (gateway.value plainShell (str "/presets"))))) := by
  obtain ⟨files,renders⟩ := gateway_renders
  exact ⟨files,renders,rendered_directives _ _ _ _ _ _ renders gateway_fitting⟩

end FipsShield.Config
