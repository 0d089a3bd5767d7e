/-
The metrics page, in the OpenMetrics text format.
-/
import TokenGate.Service

namespace TokenGate.Metrics

/-- The kinds of metric. -/
inductive Kind where
  | counter
  | gauge
deriving DecidableEq

/-- One metric: its name, its description, and its samples. A sample may carry a label. -/
structure Metric where
  kind : Kind
  name : String
  help : String
  samples : List (Option (String × String) × Nat)

/-- The word for a kind. -/
def Kind.word : Kind → String
  | counter => "counter"
  | gauge => "gauge"

/-- What a kind puts behind the name in a sample. -/
def Kind.ending : Kind → String
  | counter => "_total"
  | gauge => ""

/-- The braces around a label. -/
def labelText : Option (String × String) → String
  | .none => ""
  | .some (key, value) => "\x7b" ++ key ++ "=\"" ++ value ++ "\"\x7d"

/-- The lines of a metric. -/
def Metric.lines (m : Metric) : List String :=
  ["# HELP " ++ m.name ++ " " ++ m.help ++ ".", "# TYPE " ++ m.name ++ " " ++ m.kind.word] ++
    m.samples.map fun (label, value) =>
      m.name ++ m.kind.ending ++ labelText label ++ " " ++ String.ofList (Text.decimal value)

variable {Q : Type} {Answer : Q → Type}

/-- All metrics of the service. A label appears once it has been counted. -/
def all (s : Service Answer) : List Metric :=
  [⟨.counter, "forgeauth_cache_hits", "Token cache hits", [(.none, s.cache.hits)]⟩,
   ⟨.counter, "forgeauth_cache_misses", "Token cache misses, including expired entries",
     [(.none, s.cache.misses)]⟩,
   ⟨.counter, "forgeauth_cache_evictions", "Token cache entries evicted to respect max_size",
     [(.none, s.cache.evictions)]⟩,
   ⟨.gauge, "forgeauth_cache_entries", "Current number of token cache entries", [(.none, s.cache.gauge)]⟩,
   ⟨.counter, "forgeauth_validation", "Token validations by result",
     s.validations.counts.map fun (v, n) => (.some ("result", v.label), n)⟩,
   ⟨.counter, "forgeauth_upstream_api_calls", "Upstream API call count by endpoint",
     s.calls.counts.map fun (e, n) => (.some ("endpoint", e.name), n)⟩,
   ⟨.gauge, "forgeauth_upstream_api_rate_limit_remaining", "Remaining upstream API calls before rate limit",
     [(.none, s.budget.gauge)]⟩]

/-- The lines of the page. -/
def lines (s : Service Answer) : List String :=
  (all s).flatMap Metric.lines ++ ["# EOF"]

/-- The page. -/
def page (s : Service Answer) : String :=
  String.join ((lines s).map (· ++ "\n"))

end TokenGate.Metrics
