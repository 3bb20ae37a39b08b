import ModuleSystem.Diff
import ModuleSystem.EventLoop.Agenda
import ModuleSystem.FileSystem.Memory
import ModuleSystem.Main
import ModuleSystem.Proofs.ExportTargets
import ModuleSystem.Proofs.Registry.Failure
import ModuleSystem.Proofs.Registry.Host
import ModuleSystem.Loader.Session
import ModuleSystem.Proofs.Registry.Preparation
import ModuleSystem.Proofs.Loader.Load
import ModuleSystem.Proofs.Loader.Session
import ModuleSystem.Proofs.Loader.Closure
import ModuleSystem.Proofs.Loader.Tickets
import ModuleSystem.Proofs.Loader.Outcome
import ModuleSystem.Proofs.Loader.Progress
import ModuleSystem.Proofs.Bindings
import ModuleSystem.Proofs.Loader.Namespaces
import ModuleSystem.Proofs.Loader.Settlement
import ModuleSystem.Proofs.Loader.Sequential
import ModuleSystem.Proofs.Registry.Retry
import ModuleSystem.Proofs.Imports
import ModuleSystem.Proofs.GraphImages
import ModuleSystem.Proofs.Registry.Usage
import ModuleSystem.Proofs.ExportedNames
import ModuleSystem.Proofs.Namespaces
import ModuleSystem.Proofs.LiveBindings
import ModuleSystem.Proofs.LiveModules
import ModuleSystem.Proofs.Text.Glyphs
import ModuleSystem.Proofs.Compile.Interfaces
import ModuleSystem.Proofs.Compile.Lines
import ModuleSystem.Proofs.Compile.Names
import ModuleSystem.Proofs.Compile.Removal
import ModuleSystem.Proofs.Loops.Rewrite
import ModuleSystem.Proofs.Writes.Extents
import ModuleSystem.Proofs.RelativePaths
import ModuleSystem.Proofs.Resolver.Confinement
import ModuleSystem.Proofs.ExportNames
import ModuleSystem.Proofs.Resolver.Suffixes
import ModuleSystem.Proofs.Resolver.Retry
import ModuleSystem.Proofs.FileCache.Readers
import ModuleSystem.Proofs.EventLoop.Shared
import ModuleSystem.Proofs.Lexer.Tiles
import ModuleSystem.Proofs.Lexer.Literals
import ModuleSystem.Proofs.Json.Complete
import ModuleSystem.Proofs.Json.Sound
import ModuleSystem.Proofs.Outline.Progress
import ModuleSystem.Proofs.Outline.Consistency
import ModuleSystem.Proofs.Outline.Wrapping
import ModuleSystem.Proofs.Compile.ObjectLiterals
import ModuleSystem.Proofs.Lexer.StringRanges
import ModuleSystem.Proofs.Diagnostic.Excerpts
import ModuleSystem.Proofs.Diagnostic.Logs
import ModuleSystem.Proofs.Diagnostic.Order
import ModuleSystem.Proofs.Diff
import ModuleSystem.Proofs.Lexer.EscapedNames
