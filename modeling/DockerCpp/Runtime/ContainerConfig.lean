/-
  DockerCpp.Runtime.ContainerConfig — which configurations are accepted
  (`ContainerConfig::validate`, container_config.cpp), and the environment by key.

  The regular expressions are over ASCII, so each is a test on the list of characters.
  `validate` returns the texts of all the checks that fail, in the order of the source.
-/

import DockerCpp.Runtime.Os

namespace DockerCpp.Runtime

/-- `^[a-zA-Z0-9][a-zA-Z0-9_.-]*$`, of at most 63 bytes. -/
def isValidContainerName (name : String) : Bool :=
  if name = "" ∨ 63 < name.utf8ByteSize then false
  else
    match name.toList with
    | c :: rest => c.isAlphanum && rest.all fun d => d.isAlphanum || d == '_' || d == '.' || d == '-'
    | [] => false

/-- `^[a-f0-9]{64}$`; only the tests call it. -/
def isValidContainerId (id : String) : Bool :=
  id.toList.length = 64 && id.toList.all fun c => c.isDigit || ('a' ≤ c && c ≤ 'f')

/-- `^(\d+):(\d+)$`. -/
def isUidGid (s : List Char) : Bool :=
  match s.span Char.isDigit with
  | (uid, ':' :: gid) => !uid.isEmpty && !gid.isEmpty && gid.all Char.isDigit
  | _ => false

/-- `^[a-zA-Z_][a-zA-Z0-9_-]*$`. -/
def isUsername : List Char → Bool
  | c :: rest => (c.isAlpha || c == '_') && rest.all fun d => d.isAlphanum || d == '_' || d == '-'
  | [] => false

namespace ContainerConfig

def nameErrors (config : ContainerConfig) : List String :=
  if config.name = "" then ["Container name is required"]
  else if isValidContainerName config.name then []
  else ["Invalid container name: " ++ config.name]

def envError (var : String) : List String :=
  if '=' ∈ var.toList then []
  else ["Invalid environment variable format: " ++ var ++ " (should be KEY=VALUE)"]

def resourceErrors (r : ResourceLimits) : List String :=
  (if 0 < r.cpuPeriod ∧ 0 < r.cpuQuota ∧ r.cpuPeriod < r.cpuQuota then
    ["CPU quota cannot be greater than CPU period"] else []) ++
  (if 0 < r.memoryLimit ∧ 0 < r.memorySwapLimit ∧ r.memorySwapLimit < r.memoryLimit then
    ["Memory swap limit cannot be less than memory limit"] else [])

def portErrors (m : PortMapping) : List String :=
  (if m.containerPort = 0 then ["Container port cannot be 0 in port mapping"] else []) ++
  (if m.protocol ≠ "tcp" ∧ m.protocol ≠ "udp" then
    ["Invalid protocol in port mapping: " ++ m.protocol ++ " (should be tcp or udp)"] else [])

def validate (config : ContainerConfig) : List String :=
  (if config.image = "" then ["Container image is required"] else []) ++
  config.nameErrors ++
  (if config.workingDir ≠ "" ∧ config.workingDir.toList.head? ≠ some '/' then
    ["Working directory must be an absolute path: " ++ config.workingDir] else []) ++
  config.env.flatMap envError ++
  resourceErrors config.resources ++
  (if config.user ≠ "" ∧ !(isUidGid config.user.toList || isUsername config.user.toList) then
    ["Invalid user format: " ++ config.user ++ " (should be uid:gid or username)"] else []) ++
  config.portMappings.flatMap portErrors

/-- `env_var.substr(0, prefix.length()) == prefix`, where the prefix is the key and `=`. -/
def isEntryOf (key var : String) : Bool := var.toList.take (key ++ "=").toList.length == (key ++ "=").toList

def getEnvironment (config : ContainerConfig) (key : String) : String :=
  match config.env.find? (isEntryOf key) with
  | some var => .ofList (var.toList.drop (key ++ "=").toList.length)
  | none => ""

def setEnvironment (config : ContainerConfig) (key value : String) : ContainerConfig :=
  { config with env := config.env.filter (!isEntryOf key ·) ++ [key ++ "=" ++ value] }

end ContainerConfig

end DockerCpp.Runtime
