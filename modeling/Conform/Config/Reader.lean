import Conform.Config
import Conform.Toml.Reader

/-!
# Reading settings

Settings are read from a TOML document with the sections `limits` and `envelope`. What is not
given keeps its default; an unknown name or a value of the wrong type is refused. A section may
also be an array, whose items are the settings in order.
-/

namespace Conform

/-- A limit: an integer that is not negative. -/
def Limits.readLimit? : Toml.Value → Option Nat
  | .integer (.ofNat n) => some n
  | _ => none

/-- A key: a string. -/
def EnvelopeKeys.readKey? : Toml.Value → Option String
  | .string s => some s
  | _ => none

/-- Gives a limit a value. -/
def Limits.set (name : String) (v : Toml.Value) (limits : Limits) : Option Limits :=
  if name = "max_depth" then
    (Limits.readLimit? v).map fun n => ⟨n, limits.maxDescriptorDepth⟩
  else if name = "max_descriptor_depth" then
    (Limits.readLimit? v).map fun n => ⟨limits.maxDepth, n⟩
  else none

/-- Gives a key a value. -/
def EnvelopeKeys.set (name : String) (v : Toml.Value) (keys : EnvelopeKeys) :
    Option EnvelopeKeys :=
  if name = "callable" then
    (EnvelopeKeys.readKey? v).map fun s => ⟨s, keys.args, keys.kwargs⟩
  else if name = "args" then
    (EnvelopeKeys.readKey? v).map fun s => ⟨keys.callable, s, keys.kwargs⟩
  else if name = "kwargs" then
    (EnvelopeKeys.readKey? v).map fun s => ⟨keys.callable, keys.args, s⟩
  else none

/-- Reads a section whose settings have these names in order. -/
def Config.readSection {σ : Type} (set : String → Toml.Value → σ → Option σ) (names : List String)
    (defaults : σ) : Toml.Value → Option σ
  | .table entries => entries.foldlM (fun settings entry => set entry.1 entry.2 settings) defaults
  | .array items =>
    (names.zip items).foldlM (fun settings entry => set entry.1 entry.2 settings) defaults
  | _ => none

/-- Gives a section its settings. -/
def Config.set (name : String) (v : Toml.Value) (config : Config) : Option Config :=
  if name = "limits" then
    (readSection Limits.set ["max_depth", "max_descriptor_depth"] {} v).map fun limits =>
      ⟨limits, config.envelope⟩
  else if name = "envelope" then
    (readSection EnvelopeKeys.set ["callable", "args", "kwargs"] {} v).map fun envelope =>
      ⟨config.limits, envelope⟩
  else none

/-- Reads settings. -/
def Config.read (document : String) : Option Config := do
  let entries ← Toml.read document
  entries.foldlM (fun config entry => Config.set entry.1 entry.2 config) {}

end Conform
