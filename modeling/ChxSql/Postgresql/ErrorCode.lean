import ChxSql.Incremental.Bytes

namespace ChxSql.Postgresql

open Incremental

-- The error codes that stand for SQLSTATEs, in the order of their values, and the client's own ones.
inductive Errc where
  | successfulCompletion
  | warning
  | dynamicResultSetsReturned
  | implicitZeroBitPadding
  | nullValueEliminatedInSetFunction
  | privilegeNotGranted
  | privilegeNotRevoked
  | stringDataRightTruncation
  | deprecatedFeature
  | noData
  | noAdditionalDynamicResultSetsReturned
  | sqlStatementNotYetComplete
  | connectionException
  | connectionDoesNotExist
  | connectionFailure
  | sqlclientUnableToEstablishSqlconnection
  | sqlserverRejectedEstablishmentOfSqlconnection
  | transactionResolutionUnknown
  | protocolViolation
  | triggeredActionException
  | featureNotSupported
  | invalidTransactionInitiation
  | locatorException
  | invalidLocatorSpecification
  | invalidGrantor
  | invalidGrantOperation
  | invalidRoleSpecification
  | diagnosticsException
  | stackedDiagnosticsAccessedWithoutActiveHandler
  | caseNotFound
  | cardinalityViolation
  | dataException
  | arraySubscriptError
  | characterNotInRepertoire
  | datetimeFieldOverflow
  | divisionByZero
  | errorInAssignment
  | escapeCharacterConflict
  | indicatorOverflow
  | intervalFieldOverflow
  | invalidArgumentForLogarithm
  | invalidArgumentForNtileFunction
  | invalidArgumentForNthValueFunction
  | invalidArgumentForPowerFunction
  | invalidArgumentForWidthBucketFunction
  | invalidCharacterValueForCast
  | invalidDatetimeFormat
  | invalidEscapeCharacter
  | invalidEscapeOctet
  | invalidEscapeSequence
  | nonstandardUseOfEscapeCharacter
  | invalidIndicatorParameterValue
  | invalidParameterValue
  | invalidPrecedingOrFollowingSize
  | invalidRegularExpression
  | invalidRowCountInLimitClause
  | invalidRowCountInResultOffsetClause
  | invalidTablesampleArgument
  | invalidTablesampleRepeat
  | invalidTimeZoneDisplacementValue
  | invalidUseOfEscapeCharacter
  | mostSpecificTypeMismatch
  | nullValueNotAllowed
  | nullValueNoIndicatorParameter
  | numericValueOutOfRange
  | sequenceGeneratorLimitExceeded
  | stringDataLengthMismatch
  | stringDataRightTruncation22001
  | substringError
  | trimError
  | unterminatedCString
  | zeroLengthCharacterString
  | floatingPointException
  | invalidTextRepresentation
  | invalidBinaryRepresentation
  | badCopyFileFormat
  | untranslatableCharacter
  | notAnXmlDocument
  | invalidXmlDocument
  | invalidXmlContent
  | invalidXmlComment
  | invalidXmlProcessingInstruction
  | duplicateJsonObjectKeyValue
  | invalidArgumentForSqlJsonDatetimeFunction
  | invalidJsonText
  | invalidSqlJsonSubscript
  | moreThanOneSqlJsonItem
  | noSqlJsonItem
  | nonNumericSqlJsonItem
  | nonUniqueKeysInAJsonObject
  | singletonSqlJsonItemRequired
  | sqlJsonArrayNotFound
  | sqlJsonMemberNotFound
  | sqlJsonNumberNotFound
  | sqlJsonObjectNotFound
  | tooManyJsonArrayElements
  | tooManyJsonObjectMembers
  | sqlJsonScalarRequired
  | sqlJsonItemCannotBeCastToTargetType
  | integrityConstraintViolation
  | restrictViolation
  | notNullViolation
  | foreignKeyViolation
  | uniqueViolation
  | checkViolation
  | exclusionViolation
  | invalidCursorState
  | invalidTransactionState
  | activeSqlTransaction
  | branchTransactionAlreadyActive
  | heldCursorRequiresSameIsolationLevel
  | inappropriateAccessModeForBranchTransaction
  | inappropriateIsolationLevelForBranchTransaction
  | noActiveSqlTransactionForBranchTransaction
  | readOnlySqlTransaction
  | schemaAndDataStatementMixingNotSupported
  | noActiveSqlTransaction
  | inFailedSqlTransaction
  | idleInTransactionSessionTimeout
  | invalidSqlStatementName
  | triggeredDataChangeViolation
  | invalidAuthorizationSpecification
  | invalidPassword
  | dependentPrivilegeDescriptorsStillExist
  | dependentObjectsStillExist
  | invalidTransactionTermination
  | sqlRoutineException
  | functionExecutedNoReturnStatement
  | modifyingSqlDataNotPermitted
  | prohibitedSqlStatementAttempted
  | readingSqlDataNotPermitted
  | invalidCursorName
  | externalRoutineException
  | containingSqlNotPermitted
  | modifyingSqlDataNotPermitted38002
  | prohibitedSqlStatementAttempted38003
  | readingSqlDataNotPermitted38004
  | externalRoutineInvocationException
  | invalidSqlstateReturned
  | nullValueNotAllowed39004
  | triggerProtocolViolated
  | srfProtocolViolated
  | eventTriggerProtocolViolated
  | savepointException
  | invalidSavepointSpecification
  | invalidCatalogName
  | invalidSchemaName
  | transactionRollback
  | transactionIntegrityConstraintViolation
  | serializationFailure
  | statementCompletionUnknown
  | deadlockDetected
  | syntaxErrorOrAccessRuleViolation
  | syntaxError
  | insufficientPrivilege
  | cannotCoerce
  | groupingError
  | windowingError
  | invalidRecursion
  | invalidForeignKey
  | invalidName
  | nameTooLong
  | reservedName
  | datatypeMismatch
  | indeterminateDatatype
  | collationMismatch
  | indeterminateCollation
  | wrongObjectType
  | generatedAlways
  | undefinedColumn
  | undefinedFunction
  | undefinedTable
  | undefinedParameter
  | undefinedObject
  | duplicateColumn
  | duplicateCursor
  | duplicateDatabase
  | duplicateFunction
  | duplicatePreparedStatement
  | duplicateSchema
  | duplicateTable
  | duplicateAlias
  | duplicateObject
  | ambiguousColumn
  | ambiguousFunction
  | ambiguousParameter
  | ambiguousAlias
  | invalidColumnReference
  | invalidColumnDefinition
  | invalidCursorDefinition
  | invalidDatabaseDefinition
  | invalidFunctionDefinition
  | invalidPreparedStatementDefinition
  | invalidSchemaDefinition
  | invalidTableDefinition
  | invalidObjectDefinition
  | withCheckOptionViolation
  | insufficientResources
  | diskFull
  | outOfMemory
  | tooManyConnections
  | configurationLimitExceeded
  | programLimitExceeded
  | statementTooComplex
  | tooManyColumns
  | tooManyArguments
  | objectNotInPrerequisiteState
  | objectInUse
  | cantChangeRuntimeParam
  | lockNotAvailable
  | unsafeNewEnumValueUsage
  | operatorIntervention
  | queryCanceled
  | adminShutdown
  | crashShutdown
  | cannotConnectNow
  | databaseDropped
  | idleSessionTimeout
  | systemError
  | ioError
  | undefinedFile
  | duplicateFile
  | snapshotTooOld
  | configFileError
  | lockFileExists
  | fdwError
  | fdwColumnNameNotFound
  | fdwDynamicParameterValueNeeded
  | fdwFunctionSequenceError
  | fdwInconsistentDescriptorInformation
  | fdwInvalidAttributeValue
  | fdwInvalidColumnName
  | fdwInvalidColumnNumber
  | fdwInvalidDataType
  | fdwInvalidDataTypeDescriptors
  | fdwInvalidDescriptorFieldIdentifier
  | fdwInvalidHandle
  | fdwInvalidOptionIndex
  | fdwInvalidOptionName
  | fdwInvalidStringLengthOrBufferLength
  | fdwInvalidStringFormat
  | fdwInvalidUseOfNullPointer
  | fdwTooManyHandles
  | fdwOutOfMemory
  | fdwNoSchemas
  | fdwOptionNameNotFound
  | fdwReplyHandle
  | fdwSchemaNotFound
  | fdwTableNotFound
  | fdwUnableToCreateExecution
  | fdwUnableToCreateReply
  | fdwUnableToEstablishConnection
  | plpgsqlError
  | raiseException
  | noDataFound
  | tooManyRows
  | assertFailure
  | internalError
  | dataCorrupted
  | indexCorrupted
  | malformedMessage
  | unknownSqlstate
  deriving DecidableEq, Repr

-- `std::error_code`, which is zero if it is the default one or stands for `successful_completion`.
inductive ErrorCode where
  | none
  | of (e : Errc)
  deriving DecidableEq, Repr

-- Cf. `make_ec`.
abbrev makeEc := ErrorCode.of

def ErrorCode.isZero : ErrorCode → Bool
  | none => true
  | of e => e = .successfulCompletion

-- The bytes of an ASCII text.
def ascii (s : String) : Bytes :=
  s.toList.map Char.toUInt8

def sqlstateMap : List (String × Errc) := [
  ("00000", .successfulCompletion),
  ("01000", .warning),
  ("0100C", .dynamicResultSetsReturned),
  ("01008", .implicitZeroBitPadding),
  ("01003", .nullValueEliminatedInSetFunction),
  ("01007", .privilegeNotGranted),
  ("01006", .privilegeNotRevoked),
  ("01004", .stringDataRightTruncation),
  ("01P01", .deprecatedFeature),
  ("02000", .noData),
  ("02001", .noAdditionalDynamicResultSetsReturned),
  ("03000", .sqlStatementNotYetComplete),
  ("08000", .connectionException),
  ("08003", .connectionDoesNotExist),
  ("08006", .connectionFailure),
  ("08001", .sqlclientUnableToEstablishSqlconnection),
  ("08004", .sqlserverRejectedEstablishmentOfSqlconnection),
  ("08007", .transactionResolutionUnknown),
  ("08P01", .protocolViolation),
  ("09000", .triggeredActionException),
  ("0A000", .featureNotSupported),
  ("0B000", .invalidTransactionInitiation),
  ("0F000", .locatorException),
  ("0F001", .invalidLocatorSpecification),
  ("0L000", .invalidGrantor),
  ("0LP01", .invalidGrantOperation),
  ("0P000", .invalidRoleSpecification),
  ("0Z000", .diagnosticsException),
  ("0Z002", .stackedDiagnosticsAccessedWithoutActiveHandler),
  ("20000", .caseNotFound),
  ("21000", .cardinalityViolation),
  ("22000", .dataException),
  ("2202E", .arraySubscriptError),
  ("22021", .characterNotInRepertoire),
  ("22008", .datetimeFieldOverflow),
  ("22012", .divisionByZero),
  ("22005", .errorInAssignment),
  ("2200B", .escapeCharacterConflict),
  ("22022", .indicatorOverflow),
  ("22015", .intervalFieldOverflow),
  ("2201E", .invalidArgumentForLogarithm),
  ("22014", .invalidArgumentForNtileFunction),
  ("22016", .invalidArgumentForNthValueFunction),
  ("2201F", .invalidArgumentForPowerFunction),
  ("2201G", .invalidArgumentForWidthBucketFunction),
  ("22018", .invalidCharacterValueForCast),
  ("22007", .invalidDatetimeFormat),
  ("22019", .invalidEscapeCharacter),
  ("2200D", .invalidEscapeOctet),
  ("22025", .invalidEscapeSequence),
  ("22P06", .nonstandardUseOfEscapeCharacter),
  ("22010", .invalidIndicatorParameterValue),
  ("22023", .invalidParameterValue),
  ("22013", .invalidPrecedingOrFollowingSize),
  ("2201B", .invalidRegularExpression),
  ("2201W", .invalidRowCountInLimitClause),
  ("2201X", .invalidRowCountInResultOffsetClause),
  ("2202H", .invalidTablesampleArgument),
  ("2202G", .invalidTablesampleRepeat),
  ("22009", .invalidTimeZoneDisplacementValue),
  ("2200C", .invalidUseOfEscapeCharacter),
  ("2200G", .mostSpecificTypeMismatch),
  ("22004", .nullValueNotAllowed),
  ("22002", .nullValueNoIndicatorParameter),
  ("22003", .numericValueOutOfRange),
  ("2200H", .sequenceGeneratorLimitExceeded),
  ("22026", .stringDataLengthMismatch),
  ("22001", .stringDataRightTruncation22001),
  ("22011", .substringError),
  ("22027", .trimError),
  ("22024", .unterminatedCString),
  ("2200F", .zeroLengthCharacterString),
  ("22P01", .floatingPointException),
  ("22P02", .invalidTextRepresentation),
  ("22P03", .invalidBinaryRepresentation),
  ("22P04", .badCopyFileFormat),
  ("22P05", .untranslatableCharacter),
  ("2200L", .notAnXmlDocument),
  ("2200M", .invalidXmlDocument),
  ("2200N", .invalidXmlContent),
  ("2200S", .invalidXmlComment),
  ("2200T", .invalidXmlProcessingInstruction),
  ("22030", .duplicateJsonObjectKeyValue),
  ("22031", .invalidArgumentForSqlJsonDatetimeFunction),
  ("22032", .invalidJsonText),
  ("22033", .invalidSqlJsonSubscript),
  ("22034", .moreThanOneSqlJsonItem),
  ("22035", .noSqlJsonItem),
  ("22036", .nonNumericSqlJsonItem),
  ("22037", .nonUniqueKeysInAJsonObject),
  ("22038", .singletonSqlJsonItemRequired),
  ("22039", .sqlJsonArrayNotFound),
  ("2203A", .sqlJsonMemberNotFound),
  ("2203B", .sqlJsonNumberNotFound),
  ("2203C", .sqlJsonObjectNotFound),
  ("2203D", .tooManyJsonArrayElements),
  ("2203E", .tooManyJsonObjectMembers),
  ("2203F", .sqlJsonScalarRequired),
  ("2203G", .sqlJsonItemCannotBeCastToTargetType),
  ("23000", .integrityConstraintViolation),
  ("23001", .restrictViolation),
  ("23502", .notNullViolation),
  ("23503", .foreignKeyViolation),
  ("23505", .uniqueViolation),
  ("23514", .checkViolation),
  ("23P01", .exclusionViolation),
  ("24000", .invalidCursorState),
  ("25000", .invalidTransactionState),
  ("25001", .activeSqlTransaction),
  ("25002", .branchTransactionAlreadyActive),
  ("25008", .heldCursorRequiresSameIsolationLevel),
  ("25003", .inappropriateAccessModeForBranchTransaction),
  ("25004", .inappropriateIsolationLevelForBranchTransaction),
  ("25005", .noActiveSqlTransactionForBranchTransaction),
  ("25006", .readOnlySqlTransaction),
  ("25007", .schemaAndDataStatementMixingNotSupported),
  ("25P01", .noActiveSqlTransaction),
  ("25P02", .inFailedSqlTransaction),
  ("25P03", .idleInTransactionSessionTimeout),
  ("26000", .invalidSqlStatementName),
  ("27000", .triggeredDataChangeViolation),
  ("28000", .invalidAuthorizationSpecification),
  ("28P01", .invalidPassword),
  ("2B000", .dependentPrivilegeDescriptorsStillExist),
  ("2BP01", .dependentObjectsStillExist),
  ("2D000", .invalidTransactionTermination),
  ("2F000", .sqlRoutineException),
  ("2F005", .functionExecutedNoReturnStatement),
  ("2F002", .modifyingSqlDataNotPermitted),
  ("2F003", .prohibitedSqlStatementAttempted),
  ("2F004", .readingSqlDataNotPermitted),
  ("34000", .invalidCursorName),
  ("38000", .externalRoutineException),
  ("38001", .containingSqlNotPermitted),
  ("38002", .modifyingSqlDataNotPermitted38002),
  ("38003", .prohibitedSqlStatementAttempted38003),
  ("38004", .readingSqlDataNotPermitted38004),
  ("39000", .externalRoutineInvocationException),
  ("39001", .invalidSqlstateReturned),
  ("39004", .nullValueNotAllowed39004),
  ("39P01", .triggerProtocolViolated),
  ("39P02", .srfProtocolViolated),
  ("39P03", .eventTriggerProtocolViolated),
  ("3B000", .savepointException),
  ("3B001", .invalidSavepointSpecification),
  ("3D000", .invalidCatalogName),
  ("3F000", .invalidSchemaName),
  ("40000", .transactionRollback),
  ("40002", .transactionIntegrityConstraintViolation),
  ("40001", .serializationFailure),
  ("40003", .statementCompletionUnknown),
  ("40P01", .deadlockDetected),
  ("42000", .syntaxErrorOrAccessRuleViolation),
  ("42601", .syntaxError),
  ("42501", .insufficientPrivilege),
  ("42846", .cannotCoerce),
  ("42803", .groupingError),
  ("42P20", .windowingError),
  ("42P19", .invalidRecursion),
  ("42830", .invalidForeignKey),
  ("42602", .invalidName),
  ("42622", .nameTooLong),
  ("42939", .reservedName),
  ("42804", .datatypeMismatch),
  ("42P18", .indeterminateDatatype),
  ("42P21", .collationMismatch),
  ("42P22", .indeterminateCollation),
  ("42809", .wrongObjectType),
  ("428C9", .generatedAlways),
  ("42703", .undefinedColumn),
  ("42883", .undefinedFunction),
  ("42P01", .undefinedTable),
  ("42P02", .undefinedParameter),
  ("42704", .undefinedObject),
  ("42701", .duplicateColumn),
  ("42P03", .duplicateCursor),
  ("42P04", .duplicateDatabase),
  ("42723", .duplicateFunction),
  ("42P05", .duplicatePreparedStatement),
  ("42P06", .duplicateSchema),
  ("42P07", .duplicateTable),
  ("42712", .duplicateAlias),
  ("42710", .duplicateObject),
  ("42702", .ambiguousColumn),
  ("42725", .ambiguousFunction),
  ("42P08", .ambiguousParameter),
  ("42P09", .ambiguousAlias),
  ("42P10", .invalidColumnReference),
  ("42611", .invalidColumnDefinition),
  ("42P11", .invalidCursorDefinition),
  ("42P12", .invalidDatabaseDefinition),
  ("42P13", .invalidFunctionDefinition),
  ("42P14", .invalidPreparedStatementDefinition),
  ("42P15", .invalidSchemaDefinition),
  ("42P16", .invalidTableDefinition),
  ("42P17", .invalidObjectDefinition),
  ("44000", .withCheckOptionViolation),
  ("53000", .insufficientResources),
  ("53100", .diskFull),
  ("53200", .outOfMemory),
  ("53300", .tooManyConnections),
  ("53400", .configurationLimitExceeded),
  ("54000", .programLimitExceeded),
  ("54001", .statementTooComplex),
  ("54011", .tooManyColumns),
  ("54023", .tooManyArguments),
  ("55000", .objectNotInPrerequisiteState),
  ("55006", .objectInUse),
  ("55P02", .cantChangeRuntimeParam),
  ("55P03", .lockNotAvailable),
  ("55P04", .unsafeNewEnumValueUsage),
  ("57000", .operatorIntervention),
  ("57014", .queryCanceled),
  ("57P01", .adminShutdown),
  ("57P02", .crashShutdown),
  ("57P03", .cannotConnectNow),
  ("57P04", .databaseDropped),
  ("57P05", .idleSessionTimeout),
  ("58000", .systemError),
  ("58030", .ioError),
  ("58P01", .undefinedFile),
  ("58P02", .duplicateFile),
  ("72000", .snapshotTooOld),
  ("F0000", .configFileError),
  ("F0001", .lockFileExists),
  ("HV000", .fdwError),
  ("HV005", .fdwColumnNameNotFound),
  ("HV002", .fdwDynamicParameterValueNeeded),
  ("HV010", .fdwFunctionSequenceError),
  ("HV021", .fdwInconsistentDescriptorInformation),
  ("HV024", .fdwInvalidAttributeValue),
  ("HV007", .fdwInvalidColumnName),
  ("HV008", .fdwInvalidColumnNumber),
  ("HV004", .fdwInvalidDataType),
  ("HV006", .fdwInvalidDataTypeDescriptors),
  ("HV091", .fdwInvalidDescriptorFieldIdentifier),
  ("HV00B", .fdwInvalidHandle),
  ("HV00C", .fdwInvalidOptionIndex),
  ("HV00D", .fdwInvalidOptionName),
  ("HV090", .fdwInvalidStringLengthOrBufferLength),
  ("HV00A", .fdwInvalidStringFormat),
  ("HV009", .fdwInvalidUseOfNullPointer),
  ("HV014", .fdwTooManyHandles),
  ("HV001", .fdwOutOfMemory),
  ("HV00P", .fdwNoSchemas),
  ("HV00J", .fdwOptionNameNotFound),
  ("HV00K", .fdwReplyHandle),
  ("HV00Q", .fdwSchemaNotFound),
  ("HV00R", .fdwTableNotFound),
  ("HV00L", .fdwUnableToCreateExecution),
  ("HV00M", .fdwUnableToCreateReply),
  ("HV00N", .fdwUnableToEstablishConnection),
  ("P0000", .plpgsqlError),
  ("P0001", .raiseException),
  ("P0002", .noDataFound),
  ("P0003", .tooManyRows),
  ("P0004", .assertFailure),
  ("XX000", .internalError),
  ("XX001", .dataCorrupted),
  ("XX002", .indexCorrupted)
]

def sqlstateToErrc (sqlstate : Bytes) : Errc :=
  match sqlstateMap.find? fun entry => ascii entry.1 = sqlstate with
  | some (_, e) => e
  | none        => .unknownSqlstate

-- The only SQLSTATE that is not an error is the one of a successful completion.
theorem sqlstateToErrc_eq_successfulCompletion {sqlstate : Bytes} :
    sqlstateToErrc sqlstate = .successfulCompletion ↔ sqlstate = ascii "00000" := by
  constructor
  case mpr => rintro rfl; decide
  case mp =>
    have hm : ∀ entry ∈ sqlstateMap, entry.2 = .successfulCompletion → entry.1 = "00000" := by
      decide +kernel
    simp only [sqlstateToErrc]
    split
    case h_2 => nofun
    case h_1 name e hf =>
      rintro rfl
      have h₁ := List.find?_some hf
      have h₂ := hm _ (List.mem_of_find?_eq_some hf) rfl
      simp_all

end ChxSql.Postgresql
