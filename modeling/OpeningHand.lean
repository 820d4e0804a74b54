import OpeningHand.Binary64
import OpeningHand.Card
import OpeningHand.CommandLine.Elapsed
import OpeningHand.CommandLine.Options
import OpeningHand.CommandLine.Session
import OpeningHand.Count
import OpeningHand.DeckList
import OpeningHand.Declaration
import OpeningHand.Evaluation
import OpeningHand.Fault
import OpeningHand.Grammar.Cursor
import OpeningHand.Grammar.Flaw
import OpeningHand.Grammar.Reader
import OpeningHand.Json
import OpeningHand.Json.Reader
import OpeningHand.Main
import OpeningHand.Pattern
import OpeningHand.Pile
import OpeningHand.Proofs.AlikeHands
import OpeningHand.Proofs.BagTakings
import OpeningHand.Proofs.BoundedReferences
import OpeningHand.Proofs.CardCounts
import OpeningHand.Proofs.CardDemands
import OpeningHand.Proofs.CardNames
import OpeningHand.Proofs.CardOccurrences
import OpeningHand.Proofs.CardWarnings
import OpeningHand.Proofs.CursorPlaces
import OpeningHand.Proofs.CycleSearch
import OpeningHand.Proofs.DeckLines
import OpeningHand.Proofs.DeckTexts
import OpeningHand.Proofs.DeclarationCompleteness
import OpeningHand.Proofs.DeclarationGrammar
import OpeningHand.Proofs.DeclarationSoundness
import OpeningHand.Proofs.DerivationCount
import OpeningHand.Proofs.FreshCriteria
import OpeningHand.Proofs.HandPartition
import OpeningHand.Proofs.LargerHands
import OpeningHand.Proofs.LeafReaders
import OpeningHand.Proofs.NormalDeclarations
import OpeningHand.Proofs.OperandOrder
import OpeningHand.Proofs.Outcomes
import OpeningHand.Proofs.OverloadedLines
import OpeningHand.Proofs.OverloadedTexts
import OpeningHand.Proofs.PatternTrees
import OpeningHand.Proofs.RebuiltPatterns
import OpeningHand.Proofs.ReferenceExpansion
import OpeningHand.Proofs.ReferenceNesting
import OpeningHand.Proofs.RegularPatterns
import OpeningHand.Proofs.RegularReading
import OpeningHand.Proofs.RenderedDeclarations
import OpeningHand.Proofs.RenderedPatterns
import OpeningHand.Proofs.ReorderedPatterns
import OpeningHand.Proofs.ReportedPlaces
import OpeningHand.Proofs.ResultTables
import OpeningHand.Proofs.ReviewedReferences
import OpeningHand.Proofs.RuleBookChanges
import OpeningHand.Proofs.RuleTexts
import OpeningHand.Proofs.SearchRounds
import OpeningHand.Proofs.SelectionLists
import OpeningHand.Proofs.SelectionProducts
import OpeningHand.Proofs.SelectionRoom
import OpeningHand.Proofs.SettledRepetition
import OpeningHand.Proofs.ShuffledLines
import OpeningHand.Proofs.ShuffledOrders
import OpeningHand.Proofs.SimulationCounts
import OpeningHand.Proofs.SplitBatches
import OpeningHand.Proofs.StreamFlow
import OpeningHand.Proofs.TableColumns
import OpeningHand.Proofs.TallyCounts
import OpeningHand.Proofs.TerminatingContexts
import OpeningHand.Proofs.UnmentionedNames
import OpeningHand.Proofs.ValidatedBooks
import OpeningHand.Proofs.Verdicts
import OpeningHand.Random.ChaCha
import OpeningHand.Random.Generator
import OpeningHand.Random.Shuffle
import OpeningHand.Report
import OpeningHand.Review
import OpeningHand.RuleBook
import OpeningHand.RuleBook.Cycles
import OpeningHand.RuleBook.Registry
import OpeningHand.Selection
import OpeningHand.Simulation
import OpeningHand.Simulation.Json
import OpeningHand.Simulation.Results
import OpeningHand.Simulation.Schedule
import OpeningHand.Simulation.Settings
import OpeningHand.Simulation.Tally
import OpeningHand.Split
import OpeningHand.Text.Blank
import OpeningHand.Text.CaseTable
import OpeningHand.Text.Lines
import OpeningHand.Text.Lowercase
import OpeningHand.Text.Numeral
