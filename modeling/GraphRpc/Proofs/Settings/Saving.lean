import Mathlib
import GraphRpc.Proofs.Toml.Documents
import GraphRpc.Proofs.Wire.Steps
import GraphRpc.Settings.Validation
import GraphRpc.Settings.Writing

/-!
# Saved settings

What is saved can be loaded again. All that a document does not hold are the parts of durations below
a millisecond, so settings come back as they were, but with durations in whole milliseconds.
-/

namespace GraphRpc

open Toml (Table Tidy FitsWord assemble plainLines)
open Wire

-- ---------------------------------------------------------------------------
-- Entries
-- ---------------------------------------------------------------------------

/-- The duration as it stands in a document. -/
def Duration.onPaper (d : Duration) : Duration := .ofMillis d.wordMillis

def Duration.entry (name : String) (d : Duration) : String × Toml.Value := (name, .integer d.wordMillis)

def OutboundSettings.entries (o : OutboundSettings) : Table :=
  [("policy", .string o.policy.name), ("capacity", .integer o.capacity)]

def ServerSettings.entries (s : ServerSettings) : Table :=
  assemble ([("address", .string s.address), ("max_connections", .integer s.maxConnections),
      s.shutdownTimeout.entry "shutdown_timeout"] ++ (s.callTimeout.map (·.entry "call_timeout")).toList)
    [("outbound", s.outbound.entries)]

def ServerSettings.onPaper (s : ServerSettings) : ServerSettings :=
  { s with
    shutdownTimeout := s.shutdownTimeout.onPaper
    callTimeout := s.callTimeout.map (·.onPaper) }

def ClientSettings.entries (c : ClientSettings) : Table :=
  assemble ([("address", .string c.address), c.connectionTimeout.entry "connection_timeout"] ++
      (c.callTimeout.map (·.entry "call_timeout")).toList)
    [("outbound", c.outbound.entries)]

def ClientSettings.onPaper (c : ClientSettings) : ClientSettings :=
  { c with
    connectionTimeout := c.connectionTimeout.onPaper
    callTimeout := c.callTimeout.map (·.onPaper) }

def Limits.entries (l : Limits) : Table :=
  [("max_frame_size", .integer l.maxFrameSize), ("max_string_len", .integer l.maxStringLen),
    ("max_bytes_len", .integer l.maxBytesLen), ("max_collection_len", .integer l.maxCollectionLen),
    ("max_fields", .integer l.maxFields), ("max_depth", .integer l.maxDepth)]

def DispatchSettings.entries (d : DispatchSettings) : Table :=
  [("strategy", .string d.strategy.name), ("workers", .integer d.workers)]

def LoggingSettings.entries (l : LoggingSettings) : Table :=
  [("app_name", .string l.appName), ("log_level", .string l.level.name),
    ("log_to_console", .boolean l.toConsole), ("log_to_file", .boolean l.toFile)] ++
    (l.filePath.map fun p => ("log_file_path", Toml.Value.string p)).toList ++
    [("json_format", .boolean l.json)]

-- ---------------------------------------------------------------------------
-- Reading back
-- ---------------------------------------------------------------------------

theorem ServerSettings.read_entries (s : ServerSettings) :
    Field.readSection "ServerConfig" fields {} (.table .header s.entries) = .ok s.onPaper := by
  obtain ⟨address, maxConnections, shutdownTimeout, callTimeout, policy, capacity⟩ := s
  cases callTimeout <;> cases policy <;> rfl

theorem ClientSettings.read_entries (c : ClientSettings) :
    Field.readSection "ClientConfig" fields {} (.table .header c.entries) = .ok c.onPaper := by
  obtain ⟨address, connectionTimeout, callTimeout, policy, capacity⟩ := c
  cases callTimeout <;> cases policy <;> rfl

theorem Limits.read_entries (l : Limits) :
    Field.readSection "CodecConfig" fields {} (.table .header l.entries) = .ok l := rfl

theorem DispatchSettings.read_entries (d : DispatchSettings) :
    Field.readSection "DispatchConfig" fields {} (.table .header d.entries) = .ok d := by
  obtain ⟨strategy, workers⟩ := d
  cases strategy <;> rfl

theorem LoggingSettings.read_entries (l : LoggingSettings) :
    Field.readSection "LoggingConfig" fields {} (.table .header l.entries) = .ok l := by
  obtain ⟨appName, level, toConsole, toFile, filePath, json⟩ := l
  cases level <;> cases filePath <;> cbv

-- ---------------------------------------------------------------------------
-- Writing
-- ---------------------------------------------------------------------------

namespace Settings

variable {name : String} {rest : List (String × Writing (Option Toml.Value))} {t : Table}
  {v : Toml.Value}

theorem writeCount_ok : writeCount n = .ok v ↔ FitsWord n ∧ v = .integer n := by
  have hmin : Int64.minValue.toInt ≤ n := le_trans (by decide) (Int.natCast_nonneg n)
  rw [writeCount, FitsWord, and_iff_right hmin]
  split <;> simp_all [eq_comm]

theorem writeDuration_ok (d : Duration) (v : Toml.Value) :
    writeDuration d = .ok v ↔ FitsWord d.wordMillis ∧ v = .integer d.wordMillis := writeCount_ok

theorem text_ok : text p = .ok v ↔ v = .string p := by
  rw [text, Except.ok.injEq, eq_comm]

theorem flag_ok : flag b = .ok v ↔ v = .boolean b := by
  rw [flag, Except.ok.injEq, eq_comm]

theorem writeFields_nil : writeFields [] = .ok t ↔ t = [] := by
  rw [writeFields, Except.ok.injEq, eq_comm]

theorem writeFields_field {w : Writing Toml.Value} :
    writeFields (field name w :: rest) = .ok t ↔
      ∃ v, w = .ok v ∧ ∃ t', writeFields rest = .ok t' ∧ t = (name, v) :: t' := by
  cases w with
  | error fault => exact iff_of_false nofun nofun
  | ok v =>
    refine except_bind_ok.trans ⟨?_, ?_⟩
    · rintro ⟨_, ⟨rfl⟩, hrest⟩
      obtain ⟨t', ht', hpure⟩ := except_bind_ok.1 hrest
      exact ⟨v, rfl, t', ht', (except_pure_ok.1 hpure).symm⟩
    · rintro ⟨_, ⟨rfl⟩, t', ht', rfl⟩
      exact ⟨some v, rfl, except_bind_ok.2 ⟨t', ht', rfl⟩⟩

theorem writeFields_optional {β : Type} {write : β → Writing Toml.Value} {value : β → Toml.Value}
    {Fits : β → Prop} (hwrite : ∀ b v, write b = .ok v ↔ Fits b ∧ v = value b) {o : Option β} :
    writeFields (optional name (o.map write) :: rest) = .ok t ↔ (∀ b ∈ o.toList, Fits b) ∧
      ∃ t', writeFields rest = .ok t' ∧ t = (o.map fun b => (name, value b)).toList ++ t' := by
  cases o with
  | none =>
    refine ⟨fun h => ⟨nofun, t, h, rfl⟩, ?_⟩
    rintro ⟨-, _, h, rfl⟩
    exact h
  | some b =>
    refine writeFields_field.trans ?_
    simp only [hwrite, and_assoc, exists_and_left, exists_eq_left, Option.toList_some,
      List.forall_mem_singleton, Option.map_some, List.singleton_append]

theorem writeSection_ok {fields : List (String × Writing (Option Toml.Value))} :
    writeSection fields = .ok v ↔ ∃ t, writeFields fields = .ok t ∧ v = .table .header t := by
  simp only [writeSection, except_bind_ok, except_pure_ok, @eq_comm _ v]

theorem writeOutbound_ok : writeOutbound o = .ok v ↔
    FitsWord o.capacity ∧ v = .table .header o.entries := by
  simp only [writeOutbound, writeSection_ok, writeFields_field, writeFields_nil, text_ok,
    writeCount_ok, and_assoc, exists_and_left, exists_eq_left]
  rfl

theorem tidy_withOutbound {plains : Table} {o : OutboundSettings} (hplain : ∀ e ∈ plains, e.2.Plain)
    (hkeys : (plains.map Prod.fst ++ ["outbound"]).Nodup) (ho : FitsWord o.capacity) :
    Tidy 2 (assemble plains [("outbound", o.entries)]) := by
  have hout : ∀ e ∈ o.entries, e.2.Plain := by
    simpa [OutboundSettings.entries, Toml.Value.Plain] using ho
  refine .assemble hplain hkeys (List.forall_mem_singleton.2 nofun) (List.forall_mem_singleton.2 ?_)
  exact .plains hout (by decide : (["policy", "capacity"] : List String).Nodup) 0

theorem plain_of_fits {o : Option Duration} (h : ∀ d ∈ o.toList, FitsWord d.wordMillis) :
    ∀ e ∈ (o.map (·.entry name)).toList, e.2.Plain := by
  cases o with
  | none => nofun
  | some d => exact List.forall_mem_singleton.2 (h d (List.mem_singleton_self d))

theorem writeServer_ok (h : writeServer s = .ok v) :
    v = .table .header s.entries ∧ Tidy 2 s.entries := by
  simp only [writeServer, writeSection_ok, writeFields_field, writeFields_optional writeDuration_ok,
    writeFields_nil, text_ok, writeCount_ok, writeDuration_ok, writeOutbound_ok, and_assoc,
    exists_and_left, exists_eq_left] at h
  obtain ⟨hconnections, hshutdown, hcall, hcapacity, rfl⟩ := h
  refine ⟨rfl, tidy_withOutbound ?_ ?_ hcapacity⟩
  · refine List.forall_mem_append.2 ⟨?_, plain_of_fits hcall⟩
    simpa [Toml.Value.Plain, Duration.entry] using ⟨hconnections, hshutdown⟩
  · cases s.callTimeout <;> simp [Duration.entry]

theorem writeClient_ok (h : writeClient c = .ok v) :
    v = .table .header c.entries ∧ Tidy 2 c.entries := by
  simp only [writeClient, writeSection_ok, writeFields_field, writeFields_optional writeDuration_ok,
    writeFields_nil, text_ok, writeDuration_ok, writeOutbound_ok, and_assoc, exists_and_left,
    exists_eq_left] at h
  obtain ⟨hconnection, hcall, hcapacity, rfl⟩ := h
  refine ⟨rfl, tidy_withOutbound ?_ ?_ hcapacity⟩
  · refine List.forall_mem_append.2 ⟨?_, plain_of_fits hcall⟩
    simpa [Toml.Value.Plain, Duration.entry] using hconnection
  · cases c.callTimeout <;> simp [Duration.entry]

theorem writeLimits_ok (h : writeLimits l = .ok v) :
    v = .table .header l.entries ∧ Tidy 2 l.entries := by
  simp only [writeLimits, writeSection_ok, writeFields_field, writeFields_nil, writeCount_ok,
    and_assoc, exists_and_left, exists_eq_left] at h
  obtain ⟨hframe, hstring, hbytes, hcollection, hfields, hdepth, rfl⟩ := h
  refine ⟨rfl, .plains ?_ ?_ 1⟩
  · simpa [Limits.entries, Toml.Value.Plain] using
      ⟨hframe, hstring, hbytes, hcollection, hfields, hdepth⟩
  · simp [Limits.entries]

theorem writeDispatch_ok (h : writeDispatch d = .ok v) :
    v = .table .header d.entries ∧ Tidy 2 d.entries := by
  simp only [writeDispatch, writeSection_ok, writeFields_field, writeFields_nil, text_ok,
    writeCount_ok, and_assoc, exists_and_left, exists_eq_left] at h
  obtain ⟨hworkers, rfl⟩ := h
  refine ⟨rfl, .plains ?_ ?_ 1⟩
  · simpa [DispatchSettings.entries, Toml.Value.Plain] using hworkers
  · simp [DispatchSettings.entries]

theorem writeLogging_ok (h : writeLogging l = .ok v) :
    v = .table .header l.entries ∧ Tidy 2 l.entries := by
  have htext : ∀ p v, text p = .ok v ↔ True ∧ v = .string p := fun p v => by
    rw [text_ok, true_and]
  simp only [writeLogging, writeSection_ok, writeFields_field, writeFields_optional htext,
    writeFields_nil, text_ok, flag_ok, exists_eq_left, implies_true, true_and] at h
  subst h
  refine ⟨?_, .plains ?_ ?_ 1⟩
  · simp [LoggingSettings.entries]
  · cases hp : l.filePath <;> simp [LoggingSettings.entries, Toml.Value.Plain, hp]
  · cases hp : l.filePath <;> simp [LoggingSettings.entries, hp]

def sections (s : Settings) : List (String × Table) :=
  [("server", s.server.entries), ("client", s.client.entries), ("codec", s.codec.entries),
    ("dispatch", s.dispatch.entries), ("logging", s.logging.entries)]

theorem toTable_ok {s : Settings} (h : s.toTable = .ok t) :
    t = assemble [] s.sections ∧ Tidy 3 (assemble [] s.sections) := by
  simp only [toTable, writeFields_field, writeFields_nil, exists_eq_left] at h
  obtain ⟨_, hserver, _, ⟨_, hclient, _, ⟨_, hcodec, _, ⟨_, hdispatch, _, ⟨_, hlogging, rfl⟩, rfl⟩, rfl⟩,
    rfl⟩, rfl⟩ := h
  obtain ⟨rfl, hserverTidy⟩ := writeServer_ok hserver
  obtain ⟨rfl, hclientTidy⟩ := writeClient_ok hclient
  obtain ⟨rfl, hcodecTidy⟩ := writeLimits_ok hcodec
  obtain ⟨rfl, hdispatchTidy⟩ := writeDispatch_ok hdispatch
  obtain ⟨rfl, hloggingTidy⟩ := writeLogging_ok hlogging
  have htidy : ∀ e ∈ s.sections, Tidy 2 e.2 := by
    simpa [sections] using ⟨hserverTidy, hclientTidy, hcodecTidy, hdispatchTidy, hloggingTidy⟩
  refine ⟨rfl, .assemble nofun (by simp [sections]) ?_ htidy⟩
  simp only [sections, List.forall_mem_cons]
  exact ⟨nofun, nofun, nofun, nofun, nofun, nofun⟩

/-- Settings as they stand in a document. -/
def onPaper (s : Settings) : Settings :=
  { s with server := s.server.onPaper, client := s.client.onPaper }

theorem ofTable_sections (s : Settings) : ofTable (assemble [] s.sections) = .ok s.onPaper := by
  simp [ofTable, Field.readEntries, assemble, sections, fields, ServerSettings.read_entries,
    ClientSettings.read_entries, Limits.read_entries, DispatchSettings.read_entries,
    LoggingSettings.read_entries]
  rfl

theorem ofText_of_toText {s : Settings} {saved : String} (h : s.toText = .ok saved) :
    ofText saved = .ok s.onPaper := by
  obtain ⟨t, ht, hprint⟩ := except_bind_ok.1 h
  obtain ⟨rfl, htidy⟩ := toTable_ok ht
  obtain rfl := except_pure_ok.1 hprint
  rw [ofText, Toml.parse?_print htidy (by decide)]
  dsimp only
  rw [ofTable_sections]
  rfl

/-- What was saved is loaded as it stands in the document. -/
theorem ofFile_of_save {s : Settings} {directoryExists : Bool} {saved : String}
    (h : s.save directoryExists = .ok saved) : ofFile (.contents saved.toUTF8) = .ok s.onPaper := by
  obtain ⟨written, hwritten, hsave⟩ := except_bind_ok.1 h
  obtain rfl : written = saved := by
    split at hsave
    · exact except_pure_ok.1 hsave
    · cases hsave
  have hutf8 : String.fromUTF8? written.toUTF8 = some written := by
    rw [← toByteArray_toList written.toUTF8]
    exact fromUTF8?_eq_some.2 rfl
  rw [ofFile, hutf8]
  exact ofText_of_toText hwritten

end Settings

-- ---------------------------------------------------------------------------
-- Whole milliseconds
-- ---------------------------------------------------------------------------

namespace Duration

/-- The duration without its part below a millisecond. -/
def cut (d : Duration) : Duration := .ofMillis d.millis

theorem onPaper_eq_cut {d : Duration} (h : d.millis < UInt64.size) : d.onPaper = d.cut := by
  rw [onPaper, wordMillis, Nat.mod_eq_of_lt h, cut]

theorem cut_eq_self {d : Duration} : d.cut = d ↔ 1000000 ∣ d.nanoseconds := by
  obtain ⟨n⟩ := d
  rw [cut, ofMillis, millis, Duration.mk.injEq, Nat.dvd_iff_mod_eq_zero]
  dsimp only
  omega

theorem seconds_cut (d : Duration) : d.cut.seconds = d.seconds := by
  rw [cut, ofMillis, millis, seconds, seconds]
  dsimp only
  omega

theorem millis_cut (d : Duration) : d.cut.millis = d.millis := millis_ofMillis _

theorem isZero_cut {d : Duration} : d.cut.isZero ↔ d.millis = 0 := by
  simp [cut, ofMillis, isZero]

end Duration

theorem callTimeoutProblems_cut {t : Option Duration} :
    callTimeoutProblems (t.map (·.cut)) = [] ↔ ∀ d ∈ t.toList, 1 ≤ d.millis := by
  cases t with
  | none => exact iff_of_true rfl nofun
  | some d =>
    rw [callTimeoutProblems, problemIf_eq_nil, Option.map_some, Option.any_some, Duration.isZero_cut,
      Option.toList_some, List.forall_mem_singleton]
    exact Nat.one_le_iff_ne_zero.symm

namespace Settings

def callTimeouts (s : Settings) : List Duration :=
  s.server.callTimeout.toList ++ s.client.callTimeout.toList

def durations (s : Settings) : List Duration :=
  s.server.shutdownTimeout :: s.client.connectionTimeout :: s.callTimeouts

/-- The settings with every duration cut down to whole milliseconds. -/
def cut (s : Settings) : Settings :=
  { s with
    server := { s.server with
      shutdownTimeout := s.server.shutdownTimeout.cut
      callTimeout := s.server.callTimeout.map (·.cut) }
    client := { s.client with
      connectionTimeout := s.client.connectionTimeout.cut
      callTimeout := s.client.callTimeout.map (·.cut) } }

/-- A document keeps all milliseconds if they fit its words. -/
theorem onPaper_eq_cut {s : Settings} (h : ∀ d ∈ s.durations, d.millis < UInt64.size) :
    s.onPaper = s.cut := by
  simp only [durations, callTimeouts, List.forall_mem_cons, List.forall_mem_append] at h
  obtain ⟨hshutdown, hconnection, hserver, hclient⟩ := h
  have hcall {o : Option Duration} (ho : ∀ d ∈ o.toList, d.millis < UInt64.size) :
      o.map (·.onPaper) = o.map (·.cut) :=
    Option.map_congr fun d hd => Duration.onPaper_eq_cut (ho d (Option.mem_toList.2 hd))
  rw [onPaper, cut, ServerSettings.onPaper, ClientSettings.onPaper, Duration.onPaper_eq_cut hshutdown,
    Duration.onPaper_eq_cut hconnection, hcall hserver, hcall hclient]

theorem cut_eq_self {s : Settings} : s.cut = s ↔ ∀ d ∈ s.durations, 1000000 ∣ d.nanoseconds := by
  have hcall (o : Option Duration) : o.map (·.cut) = o ↔ ∀ d ∈ o.toList, 1000000 ∣ d.nanoseconds := by
    cases o <;> simp [Duration.cut_eq_self]
  obtain ⟨⟨address, maxConnections, shutdown, serverCall, outbound⟩,
    ⟨address', connection, clientCall, outbound'⟩, codec, dispatch, logging⟩ := s
  simp only [cut, durations, callTimeouts, mk.injEq, ServerSettings.mk.injEq, ClientSettings.mk.injEq,
    true_and, and_true, List.forall_mem_cons, List.forall_mem_append, Duration.cut_eq_self, hcall]
  tauto

theorem problems_cut {exist : String → Bool} {s : Settings} (h : s.problems exist = []) :
    s.cut.problems exist = [] ↔ ∀ d ∈ s.callTimeouts, 1 ≤ d.millis := by
  simp only [problems, ServerSettings.problems, ClientSettings.problems, List.append_eq_nil_iff] at h
  simp only [cut, problems, ServerSettings.problems, ClientSettings.problems, List.append_eq_nil_iff,
    Duration.seconds_cut, Duration.millis_cut, callTimeoutProblems_cut, callTimeouts,
    List.forall_mem_append]
  tauto

/-- Usable settings that were saved are loaded with their durations in whole milliseconds, if these fit
64 bits. So they are loaded as they were just when there is nothing to cut off, and they are usable
again just when no calls were to take less than a millisecond. -/
theorem ofFile_of_save_usable {exist : String → Bool} {s : Settings} {directoryExists : Bool}
    {saved : String} (husable : s.problems exist = []) (hwords : ∀ d ∈ s.durations, d.millis < UInt64.size)
    (hsave : s.save directoryExists = .ok saved) :
    ofFile (.contents saved.toUTF8) = .ok s.cut ∧
      (s.cut = s ↔ ∀ d ∈ s.durations, 1000000 ∣ d.nanoseconds) ∧
      (s.cut.problems exist = [] ↔ ∀ d ∈ s.callTimeouts, 1 ≤ d.millis) := by
  refine ⟨?_, cut_eq_self, problems_cut husable⟩
  rw [← onPaper_eq_cut hwords]
  exact ofFile_of_save hsave

def patient : Settings where
  client := { callTimeout := some (.ofMillis 1500) }
  logging := { appName := "the \"patient\"\n'client'" }

theorem ofFile_of_save_patient : patient.problems (fun _ => true) = [] ∧
    (∀ d ∈ patient.durations, d.millis < UInt64.size) ∧ ∃ saved, patient.save true = .ok saved ∧
      ofFile (.contents saved.toUTF8) = .ok patient := by
  have husable : patient.problems (fun _ => true) = [] := by decide
  have hwords : ∀ d ∈ patient.durations, d.millis < UInt64.size := by decide
  obtain ⟨saved, hsaved⟩ : ∃ saved, patient.save true = .ok saved := ⟨_, rfl⟩
  obtain ⟨hload, hsame, -⟩ := ofFile_of_save_usable husable hwords hsaved
  refine ⟨husable, hwords, saved, hsaved, ?_⟩
  rw [hload, hsame.2 (by decide)]

/-- A client whose calls may take half a millisecond. -/
def hasty : Settings where
  client := { callTimeout := some ⟨500000⟩ }

theorem ofFile_of_save_hasty : hasty.problems (fun _ => true) = [] ∧
    ∃ saved, hasty.save true = .ok saved ∧
      ∃ loaded, ofFile (.contents saved.toUTF8) = .ok loaded ∧ loaded ≠ hasty ∧
        loaded.problems (fun _ => true) = [.zeroCallTimeout] := by
  obtain ⟨saved, hsaved⟩ : ∃ saved, hasty.save true = .ok saved := ⟨_, rfl⟩
  exact ⟨by decide, saved, hsaved, _, ofFile_of_save hsaved, by decide, by decide⟩

end Settings
end GraphRpc
