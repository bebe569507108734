import FipsShield.Ui.Server
import FipsShield.Banlist.Histories

/-! What the answers of the dashboard may depend on, and what they say: the logs, the bans that
stand, and the bans that end last. -/
namespace FipsShield.Ui
open Text Lines Banlist Config Numeral Json

/-! ## What an answer depends on -/

theorem lineCount_le (req : Request) : lineCount req ≤ maxTailLines :=
  max_le (by decide) (min_le_right _ _)

theorem tail_rtake (file : Bytes) {n m : Nat} (fewer : n ≤ m) (maxBytes : Nat) :
    tail file n maxBytes = (tail file m maxBytes).rtake n := by
  rw [tail_window,tail_window]
  simp only [List.rtake,List.map_drop,List.length_drop,List.length_map,List.drop_drop]
  congr 1
  omega

/-- Hosts with the same answers to the three queries, the same clock, and the same last lines in
the log files of the services that are configured. -/
structure Alike (args : Args) (host host' : Host) : Prop where
  shows : ∀ bin ∈ toStr args.shieldConfig,
    host.spawn bin (showArgs args.envFile) = host'.spawn bin (showArgs args.envFile)
  lists : ∀ bin ∈ toStr args.shieldBan, host.spawn bin [str "list"] = host'.spawn bin [str "list"]
  stats : ∀ bin ∈ toStr args.fipsGuard, host.spawn bin [str "stats"] = host'.spawn bin [str "stats"]
  installed : host.there args.fipsGuard = host'.there args.fipsGuard
  now : host.now = host'.now
  later : host.later = host'.later
  logs : ∀ service : List Char, units service ∈ args.knownServices host →
    ∀ kind ∈ ["access".toList,"stream".toList],
      (host.openFile (logPath args.logDir service kind)).map (tail · maxTailLines maxTailBytes) =
        (host'.openFile (logPath args.logDir service kind)).map (tail · maxTailLines maxTailBytes)

section Alike
variable {args : Args} {host host' : Host} (alike : Alike args host host')
include alike

theorem Alike.config : args.config host = args.config host' := by
  rw [Args.config,Args.config]
  cases named : toStr args.shieldConfig with
  | none => rfl
  | some bin => rw [Option.getD_some,alike.shows bin named]

theorem Alike.bans : args.bans host = args.bans host' := by
  rw [Args.bans,Args.bans]
  cases named : toStr args.shieldBan with
  | none => rfl
  | some bin => rw [Option.getD_some,alike.lists bin named]

theorem Alike.guardStats : args.guardStats host = args.guardStats host' := by
  rw [Args.guardStats,Args.guardStats]
  cases named : toStr args.fipsGuard with
  | none => rfl
  | some bin => rw [Option.getD_some,alike.stats bin named]

theorem Alike.apiLogs (req : Request) : apiLogs args host req = apiLogs args host' req := by
  have known : args.knownServices host = args.knownServices host' := by
    rw [Args.knownServices,Args.knownServices,alike.config]
  rw [Ui.apiLogs,Ui.apiLogs,← known]
  cases req.param "service" with
  | none => rfl
  | some service =>
    dsimp only
    split_ifs with kind own
    · have same := alike.logs service (List.contains_iff_mem.mp own) _ (List.mem_pair.mpr kind)
      cases first : host.openFile (logPath args.logDir service ((req.param "kind").getD "stream".toList)) <;>
        cases second : host'.openFile (logPath args.logDir service ((req.param "kind").getD "stream".toList)) <;>
        rw [first,second] at same
      · rw [Except.error.inj same]
      · cases same
      · cases same
      · have lines := Except.ok.inj same
        dsimp only at lines ⊢
        rw [tail_rtake _ (lineCount_le req),lines,← tail_rtake _ (lineCount_le req)]
    · rfl
    · rfl

theorem Alike.handle (page : List Char) (req : Request) : handle args host page req = handle args host' page req := by
  rw [Ui.handle,Ui.handle,apiStatus,apiStatus,apiBans,apiBans,alike.config,alike.bans,alike.guardStats,alike.installed,
    alike.now,alike.later,alike.apiLogs]

end Alike

/-- Whatever is sent, the response depends on nothing of the host but the three queries, the clock,
and the last lines in the log files of the configured services. -/
theorem respond_alike (args : Args) (host host' : Host) (alike : Alike args host host') (page : List Char) (stream : Bytes) :
    respond args host page stream = respond args host' page stream := by
  rw [respond,respond]
  cases (readRequest stream).1 with
  | ok req => exact alike.handle page req
  | error resp => rfl

/-- A host with a file that is no log, which a peer asks for. -/
def guarded (secret : Bytes) : Host where
  spawn _ _ := .ok ⟨.code 0,encode "custom\tSHIELD_PROFILES\ttcp\ncustom\tSHIELD_TCP_SERVICE\tssh\n".toList,[]⟩
  openFile path :=
    if path = encode "/etc/shadow".toList then .ok secret
    else if path = encode "/var/log/nginx/shield-ssh.stream.log".toList then .ok (encode "one\ntwo\n".toList)
    else .error .notFound
  there _ := false
  now := 0
  later := 0

def loopback : Args where
  envFile := none
  logDir := encode "/var/log/nginx".toList
  shieldConfig := encode "shield-config".toList
  shieldBan := encode "shield-ban".toList
  fipsGuard := encode "fips-guard".toList

theorem guarded_services (secret : Bytes) : loopback.knownServices (guarded secret) = [str "ssh"] := by
  have same : loopback.knownServices (guarded secret) = loopback.knownServices (guarded []) := rfl
  rw [same]
  decide +kernel

theorem respond_alike_guarded : respond loopback (guarded (encode "root:x\n".toList)) []
      (encode "GET /api/logs?service=../../../etc/shadow%00&kind=access HTTP/1.1\r\n\r\n".toList) =
    respond loopback (guarded []) []
      (encode "GET /api/logs?service=../../../etc/shadow%00&kind=access HTTP/1.1\r\n\r\n".toList) := by
  have logs : ∀ service : List Char, units service ∈ loopback.knownServices (guarded (encode "root:x\n".toList)) →
      ∀ kind ∈ ["access".toList,"stream".toList],
        ((guarded (encode "root:x\n".toList)).openFile (logPath loopback.logDir service kind)).map
            (tail · maxTailLines maxTailBytes) =
          ((guarded []).openFile (logPath loopback.logDir service kind)).map (tail · maxTailLines maxTailBytes) := by
    intro service own kind kinds
    rw [guarded_services,List.mem_singleton] at own
    obtain rfl : service = "ssh".toList := units_injective own
    have other : ∀ kind ∈ ["access".toList,"stream".toList],
        logPath loopback.logDir "ssh".toList kind ≠ encode "/etc/shadow".toList := by decide +kernel
    have same (secret : Bytes) : (guarded secret).openFile (logPath loopback.logDir "ssh".toList kind) =
        if logPath loopback.logDir "ssh".toList kind = encode "/var/log/nginx/shield-ssh.stream.log".toList
        then .ok (encode "one\ntwo\n".toList) else .error .notFound := @if_neg _ _ (other kind kinds) _ (.ok secret) _
    rw [same,same]
  exact respond_alike _ _ _ ⟨fun _ _ => rfl,fun _ _ => rfl,fun _ _ => rfl,rfl,rfl,rfl,logs⟩ _ _
/-! ## The logs -/

theorem units_scalars {s : Str} (paired : Paired s) : units (scalars s) = s := by
  obtain ⟨cs,rfl⟩ := paired
  rw [scalars_utf16]
  rfl

theorem text_paired {s : Str} (paired : Paired s) : text s = .str s := by
  rw [text,units_scalars paired]

theorem unreturned_paired {s : Str} (paired : Paired s) : Paired (unreturned s) := by
  rw [unreturned]
  split_ifs with returns
  · obtain ⟨cs,rfl⟩ := paired
    rcases List.eq_nil_or_concat cs with rfl | ⟨earlier,c,rfl⟩
    · exact ⟨[],rfl⟩
    · rw [List.concat_eq_append,List.flatMap_append,List.flatMap_singleton] at *
      rw [List.getLast?_append_of_ne_nil _ (utf16_filled c)] at returns
      obtain rfl : c = '\r' := (utf16_ascii 0x0D (by decide) c).mp (List.mem_of_getLast? returns)
      have one : utf16 '\r' = [0x0D] := by decide
      exact ⟨earlier,by rw [one,List.dropLast_concat]⟩
  · exact paired

theorem toString_paired (b : Bytes) : Paired (Text.toString b) := ⟨decode b,rfl⟩

theorem tail_paired (file : Bytes) (n maxBytes : Nat) : ∀ line ∈ tail file n maxBytes, Paired line := by
  rw [tail_window]
  intro line own
  obtain ⟨bytes,_,rfl⟩ := List.mem_map.mp own
  rw [lineText]
  split_ifs
  · exact unreturned_paired (toString_paired _)
  · exact toString_paired _

/-- The log of a configured service is answered with its last lines, none of them a fragment, at
most as many as are asked for within the clamp, and exactly as many where the file is within the
window. -/
theorem logs_shown (args : Args) (host : Host) (page : List Char) (req : Request) (path : req.path = "/api/logs".toList)
    (service kind : List Char) (asked : req.param "service" = some service)
    (kinds : (req.param "kind").getD "stream".toList = kind) (either : kind = "access".toList ∨ kind = "stream".toList)
    (known : units service ∈ args.knownServices host) (file : Bytes)
    (found : host.openFile (logPath args.logDir service kind) = .ok file) :
    ∃ lines, parse (units (handle args host page req).body) =
        some (.obj [(str "service",.str (units service)),(str "kind",.str (units kind)),(str "lines",.arr (lines.map .str))]) ∧
      lines <:+ rustLines (fromUtf8Lossy file) ∧ lines.length ≤ lineCount req ∧ lineCount req ≤ maxTailLines ∧
      (file.length ≤ maxTailBytes → lines = (rustLines (fromUtf8Lossy file)).rtake (lineCount req)) := by
  obtain ⟨few,suffix,exact⟩ := tail_lines file (lineCount req) maxTailBytes
  refine ⟨_,?_,suffix,few,lineCount_le req,fun fits => exact (Or.inl fits)⟩
  have answer : handle args host page req =
      logsJson service kind (strArr ((tail file (lineCount req) maxTailBytes).map scalars)) := by
    have apart : "/api/logs".toList ≠ "/".toList ∧ "/api/logs".toList ≠ "/index.html".toList ∧
        "/api/logs".toList ≠ "/api/status".toList ∧ "/api/logs".toList ≠ "/api/bans".toList := by decide
    rw [handle,path,if_neg (not_or.mpr ⟨apart.1,apart.2.1⟩),if_neg apart.2.2.1,if_neg apart.2.2.2,if_pos rfl,apiLogs]
    simp only [asked,kinds,either,List.contains_iff_mem.mpr known,found,not_true_eq_false,if_false]
  have strings : ((tail file (lineCount req) maxTailBytes).map scalars).map (fun line => Json.str (units line)) =
      (tail file (lineCount req) maxTailBytes).map .str := by
    rw [List.map_map]
    exact List.map_congr_left fun line own => congrArg Json.str (units_scalars (tail_paired _ _ _ line own))
  rw [answer,parse_logs _ _ (parse_strArr _),strings]

theorem logs_shown_last : parse (units (handle loopback (guarded []) []
      ⟨"/api/logs".toList,[("service".toList,"ssh".toList),("n".toList,"1".toList)]⟩).body) =
    some (.obj [(str "service",.str (str "ssh")),(str "kind",.str (str "stream")),(str "lines",.arr [.str (str "two")])]) := by
  have known : units "ssh".toList ∈ loopback.knownServices (guarded []) := by
    rw [guarded_services]
    exact List.mem_singleton_self _
  have there : logPath loopback.logDir "ssh".toList "stream".toList =
      encode "/var/log/nginx/shield-ssh.stream.log".toList := by decide +kernel
  have found : (guarded []).openFile (logPath loopback.logDir "ssh".toList "stream".toList) =
      .ok (encode "one\ntwo\n".toList) := by
    rw [there]
    rfl
  obtain ⟨lines,parses,_,_,_,whole⟩ := logs_shown loopback (guarded []) []
    ⟨"/api/logs".toList,[("service".toList,"ssh".toList),("n".toList,"1".toList)]⟩ rfl "ssh".toList "stream".toList rfl rfl
    (Or.inr rfl) known _ found
  have two : (rustLines (fromUtf8Lossy (encode "one\ntwo\n".toList))).rtake
      (lineCount ⟨"/api/logs".toList,[("service".toList,"ssh".toList),("n".toList,"1".toList)]⟩) = [str "two"] := by
    decide +kernel
  rw [parses,whole (by decide),two]
  rfl

/-! ## The bans -/

section Parse
variable {bound : Nat}

theorem parseBelow_digits {ds : Str} (digits : ∀ u ∈ ds, isDigit u = true) (start : Nat)
    (small : ds.foldl (fun n d => n * 10 + (d.toNat - 0x30)) start < bound) :
    ds.foldlM (fun value u => if isDigit u = true ∧ value * 10 + (u.toNat - 0x30) < bound
      then some (value * 10 + (u.toNat - 0x30)) else none) start = some (ds.foldl (fun n d => n * 10 + (d.toNat - 0x30)) start) := by
  induction ds generalizing start with
  | nil => rfl
  | cons u ds ih =>
    have grows (ds : Str) (n : Nat) : n ≤ ds.foldl (fun n d => n * 10 + (d.toNat - 0x30)) n := by
      induction ds generalizing n with
      | nil => exact Nat.le_refl n
      | cons v ds ih' => exact le_trans (by omega) (ih' (n * 10 + (v.toNat - 0x30)))
    rw [List.foldl_cons] at small
    have step : start * 10 + (u.toNat - 0x30) < bound := lt_of_le_of_lt (grows ds _) small
    rw [List.foldlM_cons,if_pos ⟨digits u List.mem_cons_self,step⟩,Option.bind_eq_bind,Option.bind_some,List.foldl_cons]
    exact ih (fun v own => digits v (List.mem_cons_of_mem _ own)) _ small

theorem parseBelow_natText {n : Nat} (small : n < bound) : parseBelow bound (natText n) = some n := by
  have digits := natText_digits n
  have unsigned : (natText n).head? ≠ some 0x2B := fun same => by cases digits _ (List.mem_of_head? same)
  have value := parseBelow_digits digits 0 (by rw [← digitsValue,digitsValue_natText]; exact small)
  rw [← digitsValue,digitsValue_natText] at value
  rw [parseBelow]
  simp only [if_neg unsigned,if_neg (natText_ne_nil n)]
  exact value

end Parse

section Lines
variable {entry : Banlist.Entry} (address : Address entry.1)

theorem inAddress_graphic {u : UInt16} (inside : inAddress u = true) : 0x20 < u.toNat ∧ u.toNat < 0x7F := by
  simp only [inAddress,isDigit,Bool.or_eq_true,Bool.and_eq_true,decide_eq_true_eq,beq_iff_eq,UInt16.le_iff_toNat_le,
    ← UInt16.toNat_inj,UInt16.reduceToNat] at inside
  omega

theorem isWhite_graphic {u : UInt16} (graphic : 0x20 < u.toNat ∧ u.toNat < 0x7F) : isWhite u = false := by
  have plain : ∀ n < 0x7F, 0x20 < n → isWhite (UInt16.ofNat n) = false := by decide
  have own := plain u.toNat graphic.2 graphic.1
  rwa [UInt16.ofNat_toNat] at own

include address

theorem line_graphic : (∀ u ∈ entry.1, 0x20 < u.toNat ∧ u.toNat < 0x7F) ∧
    ∀ u ∈ natText entry.2, 0x20 < u.toNat ∧ u.toNat < 0x7F := by
  have digit {u : UInt16} (own : isDigit u = true) : inAddress u = true := by simp [inAddress,own]
  exact ⟨fun u own => inAddress_graphic (address.units u own),fun u own => inAddress_graphic (digit (natText_digits _ u own))⟩

theorem banLine_line (small : entry.2 < 2 ^ 64) : banLine (line entry) = some ⟨entry.1,UInt64.ofNat entry.2⟩ := by
  obtain ⟨name,digits⟩ := line_graphic address
  have parts : fields isWhite (line entry) = [entry.1,natText entry.2] :=
    fields_pair (by decide) (fun u own => isWhite_graphic (name u own)) (fun u own => isWhite_graphic (digits u own))
      address.ne_nil (natText_ne_nil _)
  rw [banLine,parts]
  simp only [parseBelow_natText small,Option.map_some]

theorem line_ascii : ∀ u ∈ line entry, u.toNat < 0x80 ∧ u ≠ 0x0A ∧ u ≠ 0x0D := by
  obtain ⟨name,digits⟩ := line_graphic address
  have plain {u : UInt16} (graphic : 0x20 < u.toNat ∧ u.toNat < 0x7F) : u.toNat < 0x80 ∧ u ≠ 0x0A ∧ u ≠ 0x0D := by
    refine ⟨by omega,?_,?_⟩ <;> rintro rfl <;> exact absurd graphic.1 (by decide)
  intro u own
  rcases List.mem_append.mp own with inside | rest
  · exact plain (name u inside)
  · rcases List.mem_cons.mp rest with rfl | inside
    · decide
    · exact plain (digits u inside)

end Lines

/-- What the dashboard makes of entries that are listed, a line each. -/
theorem bans_lines {listed : List Banlist.Entry} (fits : ∀ entry ∈ listed, Banlist.Fits entry) (bin : Str) (stderr : Bytes) :
    bans (some bin) (.ok ⟨.code 0,fromString (written 0x0A (listed.map line)),stderr⟩) =
      .ok (listed.map fun entry => ⟨entry.1,UInt64.ofNat entry.2⟩) := by
  have ascii : ∀ text ∈ listed.map line, ∀ u ∈ text, u.toNat < 0x80 ∧ u ≠ 0x0A ∧ u ≠ 0x0D := by
    intro text own
    obtain ⟨entry,inside,rfl⟩ := List.mem_map.mp own
    exact line_ascii (fits entry inside).address
  have paired : Paired (written 0x0A (listed.map line)) := by
    refine paired_ascii fun u own => ?_
    obtain ⟨text,inside,within⟩ := List.mem_flatMap.mp own
    rcases List.mem_append.mp within with part | stop
    · exact (ascii text inside u part).1
    · rw [List.mem_singleton.mp stop]
      decide
  have unended : (listed.map line).map unreturned = listed.map line := by
    conv_rhs => rw [← List.map_id (listed.map line)]
    exact List.map_congr_left fun text own => if_neg fun last => (ascii text own _ (List.mem_of_getLast? last)).2.2 rfl
  have single : ∀ text ∈ listed.map line, 0x0A ∉ text := fun text own inside => (ascii text own _ inside).2.1 rfl
  simp only [bans,run_paired bin stderr paired,Except.map,rustLines_written single,unended]
  rw [List.filterMap_map,← List.filterMap_eq_map]
  refine congrArg Except.ok (List.filterMap_congr fun entry own => ?_)
  exact banLine_line (fits entry own).address (lt_trans (fits entry own).small (by decide))

/-- What is said of a ban. -/
def entryValue (now : Nat) (entry : Banlist.Entry) : Json :=
  .obj [(str "addr",.str entry.1),(str "until",whole entry.2),(str "permanent",.bool (entry.2 = 0)),
    (str "remaining",whole (entry.2 - now))]

theorem banValue_entry {entry : Banlist.Entry} (fits : Banlist.Fits entry) (now : UInt64) :
    banValue ⟨entry.1,UInt64.ofNat entry.2⟩ now = entryValue now.toNat entry := by
  have ascii : ∀ u ∈ entry.1, u.toNat < 0x80 := fun u own => by
    have graphic := (line_graphic fits.address).1 u own
    omega
  have value : (UInt64.ofNat entry.2).toNat = entry.2 := by
    rw [UInt64.toNat_ofNat']
    exact Nat.mod_eq_of_lt (lt_trans fits.small (by decide))
  have permanent : decide (UInt64.ofNat entry.2 = 0) = decide (entry.2 = 0) := by
    refine decide_eq_decide.mpr ?_
    rw [← UInt64.toNat_inj,value,UInt64.toNat_zero]
  rw [banValue,text_paired (paired_ascii ascii),value,permanent]
  rfl

theorem handle_bans {req : Request} (path : req.path = "/api/bans".toList) (args : Args) (host : Host) (page : List Char) :
    handle args host page req = apiBans args host := by
  have apart : "/api/bans".toList ≠ "/".toList ∧ "/api/bans".toList ≠ "/index.html".toList ∧
      "/api/bans".toList ≠ "/api/status".toList := by decide
  rw [handle,path,if_neg (not_or.mpr ⟨apart.1,apart.2.1⟩),if_neg apart.2.2,if_pos rfl]

/-- Whatever was commanded of the banlist, in seconds that the shell can read and that end below
2^53, the dashboard shows of each banned address, and of no other, one ban, with the end that was
commanded last. -/
theorem bans_shown (path : Str) (events : List Event) (sound : ∀ c ∈ commands events, c.Sound)
    (held : ∀ c ∈ commands events, c.Held) (now : Nat) (date : now ≤ 8640000000000000)
    (past : ∀ c ∈ commands events, c.seconds ≤ now / 1000) (args : Args) (host : Host) (bin : Str)
    (named : toStr args.shieldBan = some bin) (stderr : Bytes)
    (lists : host.spawn bin [str "list"] =
      .ok ⟨.code 0,fromString (Banlist.list (now / 1000) (world path events).text).out,stderr⟩)
    (page : List Char) (req : Request) (asked : req.path = "/api/bans".toList) :
    ∃ shown : List Banlist.Entry, (shown.map Prod.fst).Nodup ∧
      (∀ ip, (∃ v, (ip,v) ∈ shown) ↔ Banned (commands events) ip now) ∧
      (∀ ip v, (ip,v) ∈ shown → ∃ first last ttl,
        ((commands events).reverse.find? fun c => c.ip = ip) = some (.ban first last ip ttl) ∧ v = till first ttl) ∧
      parse (units (handle args host page req).body) = some (.obj [(str "count",whole (shown.length % 2 ^ 64)),
        (str "bans",.arr (shown.map (entryValue host.now.toNat)))]) := by
  have early : ∀ c ∈ commands events, c.seconds < 2 ^ 53 := fun c own => by
    have before := past c own
    omega
  have holds := world_holds path sound held early
  have single := Expiring.store_nodup stands ((commands events).map Command.write)
  have small : now / 1000 < 2 ^ 53 := by omega
  have printed := activeEntries_eq small holds
  have kept := holds.kept (now / 1000)
  generalize stored : Expiring.store stands ((commands events).map Command.write) = entries at *
  refine ⟨entries.filter fun entry => stands (now / 1000) entry.2,?_,fun ip => ?_,fun ip v own => ?_,?_⟩
  · exact single.sublist (List.filter_sublist.map _)
  · rw [← banned_iff sound past,stored]
    simp only [List.mem_filter]
  · have inside : (ip,v) ∈ Expiring.store stands ((commands events).map Command.write) := stored ▸ List.mem_of_mem_filter own
    obtain ⟨w,found,value⟩ := Expiring.store_last stands inside
    have last : Expiring.last ((commands events).map Command.write) ip =
        ((commands events).reverse.find? fun c => c.ip = ip).map Command.write := by
      rw [Expiring.last,← List.map_reverse,List.find?_map]
      congr 2
      funext c
      cases c <;> rfl
    rw [last] at found
    obtain ⟨c,own',rfl⟩ := Option.map_eq_some_iff.mp found
    have key : c.ip = ip := by simpa using List.find?_some own'
    cases c with
    | unban => cases value
    | ban first later ip' ttl =>
      obtain rfl : ip' = ip := key
      exact ⟨first,later,ttl,own',(Option.some.inj value).symm⟩
  · have found : args.bans host = .ok ((entries.filter fun entry => stands (now / 1000) entry.2).map fun entry =>
        ⟨entry.1,UInt64.ofNat entry.2⟩) := by
      rw [Args.bans,named,Option.getD_some,lists,Banlist.list,printed]
      exact bans_lines kept bin stderr
    have values : ((entries.filter fun entry => stands (now / 1000) entry.2).map fun entry =>
        (⟨entry.1,UInt64.ofNat entry.2⟩ : Ban)).map (banValue · host.now) =
          (entries.filter fun entry => stands (now / 1000) entry.2).map (entryValue host.now.toNat) := by
      rw [List.map_map]
      exact List.map_congr_left fun entry own => banValue_entry (kept entry own) host.now
    have count := numCall_member "count" (UInt64.ofNat (entries.filter fun entry => stands (now / 1000) entry.2).length)
    have bans := @arr_member "bans" _ ((entries.filter fun entry => stands (now / 1000) entry.2).map fun entry =>
      (⟨entry.1,UInt64.ofNat entry.2⟩ : Ban)) _ _ (parse_banJson host.now)
    rw [UInt64.toNat_ofNat'] at count
    rw [values] at bans
    rw [handle_bans asked,apiBans,found]
    simp only [List.length_map]
    exact parse_document (.cons count (.cons bans .nil))

/-- A ban that was lifted, and one for good. -/
def lifted : List Event :=
  [.command (.ban 1000 1000 (str "fd97::7") 600) 1,.command (.ban 1100 1100 (str "fd97::8") 0) 2,
    .command (.unban 1150 (str "fd97::7")) 3]

def quiet : Host where
  spawn _ _ := .ok ⟨.code 0,fromString (Banlist.list 1200 (world (str "banlist") lifted).text).out,[]⟩
  openFile _ := .error .notFound
  there _ := false
  now := 1200
  later := 1200

theorem bans_shown_lifted : ∃ shown : List Banlist.Entry, (shown.map Prod.fst).Nodup ∧
    (∀ ip, (∃ v, (ip,v) ∈ shown) ↔ Banned (commands lifted) ip 1200000) ∧
    parse (units (handle loopback quiet [] ⟨"/api/bans".toList,[]⟩).body) =
      some (.obj [(str "count",whole (shown.length % 2 ^ 64)),(str "bans",.arr (shown.map (entryValue 1200)))]) := by
  obtain ⟨shown,single,banned,_,parses⟩ := bans_shown (str "banlist") lifted (by decide +kernel) (by decide +kernel) 1200000
    (by decide) (by decide +kernel) loopback quiet (str "shield-ban") (by decide +kernel) [] rfl [] ⟨"/api/bans".toList,[]⟩ rfl
  exact ⟨shown,single,banned,parses⟩

/-! ## The status -/

theorem recent_last (bans : List Ban) : ∃ hidden, (recent bans ++ hidden).Perm bans ∧
    (recent bans).Pairwise (fun a b => rank b ≤ rank a) ∧ (∀ a ∈ recent bans, ∀ b ∈ hidden, rank b ≤ rank a) ∧
    (recent bans).length = min 20 bans.length := by
  have sorted : (bans.mergeSort fun a b => rank a ≤ rank b).Pairwise fun a b => rank a ≤ rank b := by
    have ordered := @List.pairwise_mergeSort _ (fun a b : Ban => decide (rank a ≤ rank b))
      (fun a b c first second => by simp only [decide_eq_true_eq] at *; omega)
      (fun a b => by simp only [Bool.or_eq_true,decide_eq_true_eq]; omega) bans
    exact ordered.imp fun le => by simpa using le
  have all := List.take_append_drop 20 (bans.mergeSort fun a b => rank a ≤ rank b).reverse
  have down := List.pairwise_reverse.mpr sorted
  rw [← all] at down
  obtain ⟨shown,_,apart⟩ := List.pairwise_append.mp down
  refine ⟨(bans.mergeSort fun a b => rank a ≤ rank b).reverse.drop 20,?_,shown,apart,?_⟩
  · rw [recent,all]
    exact (List.reverse_perm _).trans (List.mergeSort_perm _ _)
  · rw [recent,List.length_take,List.length_reverse,List.length_mergeSort]

section Members
variable {args : Args} {host : Host}

theorem statusMembers_ok : property (args.statusMembers host) (str "config_ok") = some (.bool (args.config host).isOk) ∧
    property (args.statusMembers host) (str "bans_ok") = some (.bool (args.bans host).isOk) ∧
    property (args.statusMembers host) (str "guard_ok") = some (.bool (args.guardStats host).isOk) := by
  rw [Args.statusMembers]
  cases args.config host <;> cases args.bans host <;> cases args.guardStats host <;> exact ⟨rfl,rfl,rfl⟩

theorem statusMembers_services {config : List Report} (shows : args.config host = .ok config) :
    property (args.statusMembers host) (str "services") = some (.arr ((services config).map serviceValue)) := by
  rw [Args.statusMembers,shows]
  cases args.bans host <;> cases args.guardStats host <;> rfl

theorem statusMembers_bans {bans : List Ban} (lists : args.bans host = .ok bans) :
    property (args.statusMembers host) (str "bans") = some (.arr ((recent bans).map (banValue · host.now))) ∧
      property (args.statusMembers host) (str "ban_count") = some (whole (bans.length % 2 ^ 64)) := by
  have count : whole (UInt64.ofNat bans.length).toNat = whole (bans.length % 2 ^ 64) := by rw [UInt64.toNat_ofNat']
  rw [Args.statusMembers,lists,← count]
  cases args.config host <;> cases args.guardStats host <;> exact ⟨rfl,rfl⟩

end Members

theorem handle_status {req : Request} (path : req.path = "/api/status".toList) (args : Args) (host : Host) (page : List Char) :
    handle args host page req = apiStatus args host := by
  have apart : "/api/status".toList ≠ "/".toList ∧ "/api/status".toList ≠ "/index.html".toList := by decide
  rw [handle,path,if_neg (not_or.mpr apart),if_pos rfl]

/-- The status says of each tool whether it ran, and shows the services, the number of bans and of
these the 20 that end last, a ban for good with those of the largest end. -/
theorem status_shown (args : Args) (host : Host) (page : List Char) (req : Request) (asked : req.path = "/api/status".toList) :
    ∃ members, parse (units (handle args host page req).body) = some (.obj members) ∧
      property members (str "config_ok") = some (.bool (args.config host).isOk) ∧
      property members (str "bans_ok") = some (.bool (args.bans host).isOk) ∧
      property members (str "guard_ok") = some (.bool (args.guardStats host).isOk) ∧
      (∀ config, args.config host = .ok config →
        property members (str "services") = some (.arr ((services config).map serviceValue))) ∧
      ∀ bans, args.bans host = .ok bans → ∃ shown hidden : List Ban, (shown ++ hidden).Perm bans ∧ shown.length = min 20 bans.length ∧
        shown.Pairwise (fun a b => rank b ≤ rank a) ∧ (∀ a ∈ shown, ∀ b ∈ hidden, rank b ≤ rank a) ∧
        property members (str "bans") = some (.arr (shown.map (banValue · host.now))) ∧
        property members (str "ban_count") = some (whole (bans.length % 2 ^ 64)) := by
  obtain ⟨config,bans,guard⟩ := @statusMembers_ok args host
  refine ⟨args.statusMembers host,?_,config,bans,guard,fun _ shows => statusMembers_services shows,fun found lists => ?_⟩
  · rw [handle_status asked,parse_status]
  · obtain ⟨hidden,whole,order,last,size⟩ := recent_last found
    obtain ⟨shown,count⟩ := statusMembers_bans lists
    exact ⟨recent found,hidden,whole,size,order,last,shown,count⟩

/-- The status of a host that answers with a ban. -/
theorem status_shown_quiet : ∃ members,
    parse (units (handle loopback quiet [] ⟨"/api/status".toList,[]⟩).body) = some (.obj members) ∧
      property members (str "bans_ok") = some (.bool true) := by
  obtain ⟨members,parses,_,bans,_⟩ := status_shown loopback quiet [] ⟨"/api/status".toList,[]⟩ rfl
  have ran : (loopback.bans quiet).isOk = true := by decide +kernel
  exact ⟨members,parses,ran ▸ bans⟩

end FipsShield.Ui
