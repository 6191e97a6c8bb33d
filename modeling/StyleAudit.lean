import StyleAudit.Formats
import StyleAudit.Machine.Workstation
import StyleAudit.Main
import StyleAudit.Program
import StyleAudit.Proofs.FreshNaming
import StyleAudit.Proofs.LineGrammar
import StyleAudit.Proofs.ScratchLifetime
import StyleAudit.Proofs.Totals
import StyleAudit.Proofs.Retelling
import StyleAudit.Proofs.Outcomes
import StyleAudit.Proofs.SoundReport
import StyleAudit.Proofs.VersionGate
import StyleAudit.Proofs.Discovery
import StyleAudit.Proofs.UpwardWalk
import StyleAudit.Proofs.ReportReading
import StyleAudit.Proofs.ExitContract
import StyleAudit.Proofs.Influence
import StyleAudit.Proofs.Joining
import StyleAudit.Proofs.Growth
import StyleAudit.Proofs.Reordering
import StyleAudit.Proofs.SummaryReading
import StyleAudit.Proofs.Judging
import StyleAudit.Proofs.Bookkeeping
import StyleAudit.Proofs.LineEndings
import StyleAudit.Proofs.Printing
import StyleAudit.Proofs.Spelling
import StyleAudit.Proofs.Colouring
import StyleAudit.Proofs.PrintedCounts
import StyleAudit.Proofs.CommandLine
import StyleAudit.Proofs.TomlDocument
import StyleAudit.Proofs.ShellArithmetic
import StyleAudit.Proofs.ShellPatterns
import StyleAudit.Proofs.ShellScripts
import StyleAudit.Proofs.YamlSettings
