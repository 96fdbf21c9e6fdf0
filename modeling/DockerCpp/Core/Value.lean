/-
  DockerCpp.Core.Value — error codes (`core/error.hpp`) and configuration values, shared
  by the parts of the runtime.

  Both configuration managers hold `std::variant`s of the same four alternatives. An `int`
  is 32 bits wide; a `double` is its bit pattern.
-/

import Mathlib.Data.String.Basic

namespace DockerCpp

/-- The codes the modelled functions throw. -/
inductive ErrorCode where
  | namespaceCreationFailed
  | processCreationFailed
  | processStopFailed
  | processNotFound
  | configInvalid
  | configMissing
  | invalidType
  | fileNotFound
  | invalidPlugin
  | invalidPluginName
  | duplicatePlugin
  | pluginNotFound
  | circularDependency
  deriving DecidableEq, Repr

namespace ErrorCode

def value : ErrorCode → Nat
  | .namespaceCreationFailed => 3000
  | .processCreationFailed => 5000
  | .processStopFailed => 5001
  | .processNotFound => 5002
  | .configInvalid => 10000
  | .configMissing => 10001
  | .invalidType => 10002
  | .fileNotFound => 10003
  | .pluginNotFound => 11000
  | .invalidPlugin => 11003
  | .invalidPluginName => 11004
  | .duplicatePlugin => 11005
  | .circularDependency => 11008

/-- `ContainerErrorCategory::message`. -/
def message : ErrorCode → String
  | .namespaceCreationFailed => "Failed to create namespace"
  | .processCreationFailed => "Failed to create process"
  | .processStopFailed => "Failed to stop process"
  | .processNotFound => "Process not found"
  | .configInvalid => "Invalid configuration"
  | .configMissing => "Missing configuration: Configuration key not found"
  | .invalidType => "Invalid type for configuration value"
  | .fileNotFound => "File not found"
  | .pluginNotFound => "Plugin not found"
  | .invalidPlugin => "Invalid plugin"
  | .invalidPluginName => "Invalid plugin name"
  | .duplicatePlugin => "Duplicate plugin"
  | .circularDependency => "Circular dependency detected"

end ErrorCode

structure ContainerError where
  code : ErrorCode
  message : String
  deriving DecidableEq, Repr

def ContainerError.what (e : ContainerError) : String :=
  "[docker-cpp " ++ toString e.code.value ++ "] " ++ e.code.message ++ (if e.message = "" then "" else ": " ++ e.message)

inductive ConfigValueType where
  | string
  | integer
  | boolean
  | double
  | array
  | object
  deriving DecidableEq, Repr

inductive ConfigValue where
  | string (s : String)
  | integer (n : Int32)
  | boolean (b : Bool)
  | double (bits : UInt64)
  deriving DecidableEq, Repr

namespace ConfigValue

/-- `ConfigValue{}`: the first alternative, an empty string. -/
def empty : ConfigValue := .string ""

def getType : ConfigValue → ConfigValueType
  | .string _ => .string
  | .integer _ => .integer
  | .boolean _ => .boolean
  | .double _ => .double

/-- `std::get<T>`, for the type a `T` stands for, or the error `e`. -/
def get (v : ConfigValue) (T : ConfigValueType) (e : ContainerError) : Except ContainerError ConfigValue :=
  if v.getType = T then .ok v else .error e

theorem get_agree {v w : ConfigValue} {e : ContainerError} (h : ∀ T, v.get T e = w.get T e) : v = w := by
  have hv := h v.getType
  unfold get at hv
  rw [if_pos rfl] at hv
  split at hv
  · exact Except.ok.inj hv
  · cases hv

end ConfigValue

end DockerCpp
