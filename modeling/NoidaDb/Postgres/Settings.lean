/-
Per-connection settings (GUCs): SET, and SET LOCAL at the end of a transaction.

The rules that normalize a value (`validate`, which for `TimeZone` consults the time zone tables)
are a parameter.
-/

import NoidaDb.Postgres.Value

namespace NoidaDb.Postgres

/-- The names of `DEFAULTS`. -/
def defaultNames : List String :=
  ["application_name", "client_encoding", "DateStyle", "default_transaction_read_only",
   "in_hot_standby", "integer_datetimes", "IntervalStyle", "is_superuser", "server_encoding",
   "server_version", "session_authorization", "standard_conforming_strings", "TimeZone",
   "server_version_num", "search_path", "extra_float_digits", "bytea_output", "statement_timeout",
   "lock_timeout", "idle_in_transaction_session_timeout", "client_min_messages",
   "default_transaction_isolation", "default_table_access_method", "transaction_isolation",
   "transaction_read_only", "default_transaction_deferrable", "transaction_deferrable",
   "max_connections", "max_identifier_length", "block_size", "lc_collate", "lc_ctype",
   "lc_messages", "lc_monetary", "lc_numeric", "lc_time", "work_mem", "maintenance_work_mem",
   "shared_buffers", "port", "listen_addresses", "ssl", "password_encryption",
   "synchronous_commit", "row_security", "check_function_bodies", "xmloption", "jit", "wal_level",
   "max_wal_senders", "default_tablespace", "temp_tablespaces", "default_text_search_config",
   "timezone_abbreviations", "array_nulls", "backslash_quote", "escape_string_warning",
   "quote_all_identifiers", "enable_seqscan", "enable_indexscan", "enable_async_append",
   "enable_bitmapscan", "enable_gathermerge", "enable_hashagg", "enable_hashjoin",
   "enable_incremental_sort", "enable_indexonlyscan", "enable_material", "enable_memoize",
   "enable_mergejoin", "enable_nestloop", "enable_parallel_append", "enable_parallel_hash",
   "enable_partition_pruning", "enable_partitionwise_aggregate", "enable_partitionwise_join",
   "enable_sort", "enable_tidscan", "log_statement", "log_min_duration_statement",
   "tcp_keepalives_idle", "track_activities", "data_directory", "config_file", "hba_file",
   "max_prepared_transactions", "max_locks_per_transaction", "wal_segment_size", "segment_size",
   "data_checksums", "server_version_full", "cluster_name", "session_replication_role",
   "vacuum_cost_delay", "effective_cache_size", "random_page_cost", "default_statistics_target",
   "constraint_exclusion", "cursor_tuple_fraction", "from_collapse_limit", "join_collapse_limit",
   "geqo", "plan_cache_mode", "huge_pages", "max_parallel_workers_per_gather",
   "max_parallel_workers", "max_worker_processes", "autovacuum", "krb_caseins_users",
   "krb_server_keyfile", "unix_socket_directories", "dynamic_shared_memory_type",
   "event_triggers", "allow_system_table_mods", "gin_fuzzy_search_limit", "ignore_system_indexes",
   "trace_notify", "transform_null_equals", "lo_compat_privileges", "operator_precedence_warning",
   "enable_partition_pruning"]

structure Settings where
  values : String → Option String
  zone : String := "UTC"
  /-- This session's temporary schema (`pg_temp_N`). -/
  tempSchema : String := ""

structure SettingRules where
  /-- The normalized value, and the zone that `TimeZone` selects. -/
  validate : Settings → String → String → PgResult (String × Option String)
  lookupPath : Settings → List String

def toAsciiLowercase (s : String) : String := String.ofList (s.toList.map Char.toLower)

@[irreducible] def canonical (name : String) : Option String :=
  defaultNames.find? (fun n => toAsciiLowercase n == toAsciiLowercase name)

def unrecognized (name : String) : PgError :=
  { code := Code.undefinedObject
    message := "unrecognized configuration parameter \"" ++ name ++ "\"" }

namespace Settings

def slot (name : String) : String := (canonical (toAsciiLowercase name)).getD (toAsciiLowercase name)

def set (rules : SettingRules) (s : Settings) (name value : String) : PgResult Settings :=
  let l := toAsciiLowercase name
  match canonical l with
  | none =>
    if '.' ∈ name.toList then
      .ok { s with values := Function.update s.values l (some value) }
    else .error (unrecognized name)
  | some c => do
      let (v, zone) ← rules.validate s c value
      pure { s with values := Function.update s.values c (some v), zone := zone.getD s.zone }

/-- The stored name that SET LOCAL of `name` affected, if there is one. -/
def restoreKey (s : Settings) (name : String) : Option String :=
  let l := toAsciiLowercase name
  match canonical l with
  | some c => some c
  | none => (s.values l).map (fun _ => l)

/-- Puts `name` back to its value in `other` (SET LOCAL at transaction end). -/
def restoreFrom (s : Settings) (name : String) (other : Settings) : Settings :=
  match s.restoreKey name with
  | none => s
  | some c =>
    { s with
      values := Function.update s.values c (other.values c)
      zone := if c = "TimeZone" then other.zone else s.zone }

/-- A setting that had a value at `atBegin` still has one. -/
def Extends (current atBegin : Settings) : Prop :=
  ∀ k, atBegin.values k ≠ none → current.values k ≠ none

variable {rules : SettingRules} {s : Settings}

theorem set_ok {after : Settings} {name value : String}
    (done : s.set rules name value = .ok after) :
    ∃ v, after.values = Function.update s.values (slot name) (some v) := by
  unfold set at done
  unfold slot
  cases found : canonical (toAsciiLowercase name) with
  | none =>
    simp only [found] at done
    split at done
    · cases done
      exact ⟨value, rfl⟩
    · cases done
  | some c =>
    simp only [found] at done
    cases checked : rules.validate s c value with
    | error e =>
      rw [checked] at done
      cases done
    | ok pair =>
      rw [checked] at done
      cases done
      exact ⟨pair.1, rfl⟩

theorem set_values_of_ne {after : Settings} {name value : String}
    (done : s.set rules name value = .ok after) {k : String} (other : k ≠ slot name) :
    after.values k = s.values k := by
  obtain ⟨v, values⟩ := set_ok done
  rw [values, Function.update_of_ne other]

theorem set_extends {after atBegin : Settings} {name value : String}
    (done : s.set rules name value = .ok after) (extended : s.Extends atBegin) :
    after.Extends atBegin := by
  intro k had
  obtain ⟨v, values⟩ := set_ok done
  rw [values]
  by_cases same : k = slot name
  · rw [same, Function.update_self]
    simp
  · rw [Function.update_of_ne same]
    exact extended k had

theorem restoreKey_cases (s : Settings) (name : String) :
    s.restoreKey name = some (slot name) ∨
      (s.restoreKey name = none ∧ s.values (slot name) = none) := by
  unfold restoreKey slot
  cases found : canonical (toAsciiLowercase name) with
  | some c => simp [found]
  | none => cases stored : s.values (toAsciiLowercase name) <;> simp [found, stored]

theorem restoreFrom_of_ne (s other : Settings) {name k : String} (different : k ≠ slot name) :
    (s.restoreFrom name other).values k = s.values k := by
  unfold restoreFrom
  rcases restoreKey_cases s name with found | ⟨absent, _⟩
  · simp [found, different]
  · simp [absent]

theorem restoreFrom_self (s other : Settings) (name : String) (extended : s.Extends other) :
    (s.restoreFrom name other).values (slot name) = other.values (slot name) := by
  unfold restoreFrom
  rcases restoreKey_cases s name with found | ⟨absent, unset⟩
  · simp [found]
  · have unsetThere : other.values (slot name) = none := by
      by_contra had
      exact extended _ had unset
    simp [absent, unset, unsetThere]

theorem restoreFrom_extends (s other : Settings) (name : String) (extended : s.Extends other) :
    (s.restoreFrom name other).Extends other := by
  intro k had
  by_cases same : k = slot name
  · rw [same, restoreFrom_self s other name extended, ← same]
    exact had
  · rw [restoreFrom_of_ne s other same]
    exact extended k had

end Settings

def restoreLocals (names : List String) (current atBegin : Settings) : Settings :=
  names.foldl (fun settings name => settings.restoreFrom name atBegin) current

theorem restoreLocals_values (names : List String) (current atBegin : Settings)
    (extended : current.Extends atBegin) (k : String) :
    (restoreLocals names current atBegin).values k =
      if k ∈ names.map Settings.slot then atBegin.values k else current.values k := by
  induction names generalizing current with
  | nil => simp [restoreLocals]
  | cons name rest ih =>
    have step := ih (current.restoreFrom name atBegin)
      (Settings.restoreFrom_extends current atBegin name extended)
    unfold restoreLocals at step ⊢
    rw [List.foldl_cons, step]
    by_cases later : k ∈ rest.map Settings.slot
    · simp [later]
    · by_cases same : k = Settings.slot name
      · subst same
        simp [later, Settings.restoreFrom_self current atBegin name extended]
      · simp [later, same, Settings.restoreFrom_of_ne current atBegin same]

/-- Rules for settings that take any text, such as `application_name`. -/
def textRules : SettingRules where
  validate _ _ value := .ok (value, none)
  lookupPath _ := ["public"]

end NoidaDb.Postgres
