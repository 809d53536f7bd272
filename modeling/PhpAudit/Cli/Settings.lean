import PhpAudit.Cli.Command
import PhpAudit.Cli.Config

/-!
# Settings of a scan

The command line and the configuration file make up the settings of a scan. Where both speak, the
command line wins; lists are joined.
-/

namespace PhpAudit

/-- What governs a scan. -/
structure Settings where
  failOn : Option Severity
  suppressComment : String
  maxFileSize : Nat
  timeoutMs : Option Nat
  excludes : List Glob
  disabled : List String

namespace Settings

/-- The marker that suppresses the findings on its line, unless another is set. -/
def defaultMarker : String := "rootcause-ignore"

/-- The size in bytes above which files are left out, unless another is set. -/
def defaultMaxSize : Nat := 5 * 1024 * 1024

/-- Joins the arguments of a scan and a configuration. The configuration is checked first, then the
rule ids on the command line. -/
def resolve (engine : Glob.Engine) (args : ScanArgs) (config : Config) (catalog : Catalog) :
    Except ConfigError Settings := do
  config.validate engine catalog
  Config.checkIds catalog .unknownDisabledRule args.disabled
  let threshold ← config.threshold
  let patterns ← config.patterns engine
  return {
    failOn := args.failOn <|> threshold
    suppressComment := (args.suppressComment <|> config.suppressComment).getD defaultMarker
    maxFileSize := (args.maxFileSize <|> config.maxFileSize).getD defaultMaxSize
    timeoutMs := args.timeoutMs <|> config.timeoutMs
    excludes := args.exclude ++ patterns ++
      (if args.noDefaultExclude then [] else Exclusion.defaults engine)
    disabled := config.disabled ++ args.disabled }

/-- The rules that run under the settings. -/
def catalog (s : Settings) (all : Catalog) : Catalog := all.without s.disabled

end Settings

end PhpAudit
