import Lox.Command
import Lox.Main
import Lox.Store.Inspection
import Lox.Syntax.Outline
import Lox.Proofs.Grammar
import Lox.Proofs.ParserSteps
import Lox.Proofs.ParserSoundness
import Lox.Proofs.DerivedWords
import Lox.Proofs.ParserCompleteness
import Lox.Proofs.ParserCorrectness
import Lox.Proofs.Addresses
import Lox.Proofs.Coherence
import Lox.Proofs.CoherentRules
import Lox.Proofs.CoherentRuns
import Lox.Proofs.ResolvedSessions
import Lox.Proofs.ActiveScope
import Lox.Proofs.RejectedSources
import Lox.Proofs.RenamedRuns
import Lox.Proofs.SignalTargets
import Lox.Proofs.LexicalGrammar
import Lox.Proofs.LinkedRuns
import Lox.Proofs.TraitConformance
import Lox.Proofs.Concatenation
import Lox.Proofs.LexicalScoping
import Lox.Proofs.Bookkeeping
import Lox.Proofs.LoadedScripts
import Lox.Proofs.LoadedFiles
import Lox.Proofs.SourceReadings
import Lox.Proofs.NodeIdentities
import Lox.Proofs.StaticValidity
import Lox.Proofs.RequiredMethods
import Lox.Proofs.UnusedVariables
import Lox.Proofs.WellFormedRuns
import Lox.Proofs.Layout
import Lox.Proofs.LineNumbers
import Lox.Proofs.ParserBounds
import Lox.Proofs.EnteredFunctions
import Lox.Proofs.SlotStore
import Lox.Proofs.ReturnPlaces
import Lox.Proofs.ObjectHistories
import Lox.Proofs.HostedSessions
import Lox.Proofs.MethodOrder
import Lox.Proofs.PropertyAccess
import Lox.Proofs.InitializerResults
import Lox.Proofs.BalancedWalk
import Lox.Proofs.ClassDeclarations
import Lox.Proofs.BoundNames
